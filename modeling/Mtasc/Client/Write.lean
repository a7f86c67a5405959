import Mtasc.Client.Context

/-!
# `async_write`

The write of a message, with its helper for a failed `write`.
-/

namespace Mtasc

open Lib

/-! ## The code -/

/-- `strlen(M_clientMessage.c_str())`. -/
def ClientContext.messageStrlen (ctx : ClientContext) : ℕ :=
  (ctx.clientMessage.takeWhile (· != 0)).length

/-- The `n` bytes of the message from `M_clientMessage.c_str() + offset` on. -/
def ClientContext.messageFrom (ctx : ClientContext) (offset n : ℕ) : Bytes :=
  (ctx.clientMessage.drop offset).take n

def writeRetryable (errno : ℤ) : Bool :=
  errno ∈ [eagain, eintr, enobufs, enomem, etimedout]

/-- The inner `while` of `M_retryTcpwrite`; its state is the context and
`M_total_write`. -/
def retryTcpwriteInner (strfullLen : ℕ) :
    ClientContext × ℕ →
      Net (Iter (ClientContext × ℕ) (Flow (ClientContext × ℕ) ClientContext))
  | (ctx, totalWrite) =>
    if totalWrite < strfullLen then do
      let ret ← perform (.write ctx.socketfd
        (ctx.messageFrom totalWrite (strfullLen - totalWrite)))
      let recv := wrapInt ret
      if recv < 0 then
        if ctx.maxRetyCount ≥ ctx.connectRetyCount then
          return .done (.return { ctx with isRetrySuccess := false })
        else
          return .next (ctx, totalWrite)
      else if wadd 64 (toSizeT recv) totalWrite = strfullLen then
        return .done (.return { ctx with
          isRetrySuccess := true, clientRetryWriteBytes := totalWrite })
      else
        let totalWrite := wadd 64 totalWrite (toSizeT recv)
        return .next
          ({ ctx with clientRetryWriteBytes := totalWrite }, totalWrite)
    else
      return .done (.fall (ctx, totalWrite))

/-- The outer `while` of `M_retryTcpwrite`. -/
def retryTcpwriteOuter (fuel strfullLen : ℕ) :
    ClientContext × ℕ →
      Net (Iter (ClientContext × ℕ) (Flow (ClientContext × ℕ) ClientContext))
  | (ctx, totalWrite) =>
    if ctx.connectRetyCount < ctx.maxRetyCount then do
      let ctx := { ctx with connectRetyCount := ctx.connectRetyCount + 1 }
      match ← Prog.iterate (retryTcpwriteInner strfullLen) fuel
          (ctx, totalWrite) with
      | .return ctx => return .done (.return ctx)
      | .fall s => return .next s
    else
      return .done (.fall (ctx, totalWrite))

/-- `M_retryTcpwrite`. The context is passed by reference: what is returned is
also what the caller's context has become. -/
def retryTcpwrite (fuel : ℕ) (ctx : ClientContext)
    (totalWrite strfullLen : ℕ) (errnoCopy : ℤ) : Net ClientContext :=
  if ctx.socketfd < 0 ∨ ctx.thisAddrInvalid ∨ ctx.resovlerAddrs = [] then
    return { ctx with isRetrySuccess := false }
  else if writeRetryable errnoCopy then do
    let ctx := { ctx with connectRetyCount := 0 }
    match ← Prog.iterate (retryTcpwriteOuter fuel strfullLen) fuel
        (ctx, totalWrite) with
    | .return ctx => return ctx
    | .fall (ctx, totalWrite) =>
        if totalWrite ≤ strfullLen then
          return { ctx with
            isRetrySuccess := true, clientRetryWriteBytes := totalWrite }
        else if totalWrite < strfullLen ∨ totalWrite ≤ 0 then
          return { ctx with isRetrySuccess := false }
        else
          return { ctx with isRetrySuccess := false }
  else
    return { ctx with isRetrySuccess := false }

/-- The `while` of the task; its state is the context, `M_written` and
`M_total_write`. -/
def asyncWriteStep (fuel : ℕ) :
    ClientContext × ℤ × ℤ →
      Net (Iter (ClientContext × ℤ × ℤ) (Flow (ClientContext × ℤ) TaskEnd))
  | (ctx, written, totalWrite) =>
    if toSizeT written < ctx.messageStrlen then do
      let ret ← perform (.write ctx.socketfd (ctx.messageFrom (toSizeT written)
        (wsub 64 ctx.messageStrlen (toSizeT written))))
      let writeRet := wrapInt ret
      if writeRet < 0 then
        let errno ← perform .errno
        let ctx ← retryTcpwrite fuel ctx (toSizeT writeRet) ctx.messageStrlen
          errno
        if ctx.isRetrySuccess then
          if ctx.clientWriteBytes = 0 then
            submitWrite (makeErrorCode efault) (toSizeT totalWrite) ctx
            return .done (.return .returned)
          else
            submitWrite {} (wadd 64 ctx.clientWriteBytes (toSizeT totalWrite))
              ctx
            return .done (.return .returned)
        else
          submitWrite (makeErrorCode eio)
            (toSizeT (wrapInt (totalWrite + totalWrite))) ctx
          return .done (.return .returned)
      else
        let totalWrite := wrapInt (totalWrite + writeRet)
        let written := wrapInt (written + writeRet)
        if toSizeT totalWrite = ctx.messageStrlen then
          return .done (.fall (ctx, totalWrite))
        else
          return .next (ctx, written, totalWrite)
    else
      return .done (.fall (ctx, totalWrite))

/-- The task `async_write` posts. -/
def asyncWriteTask (fuel : ℕ) (ctx : ClientContext) : Net TaskEnd := do
  match ← Prog.iterate (asyncWriteStep fuel) fuel (ctx, 0, 0) with
  | .return e => return e
  | .fall (ctx, totalWrite) =>
      if toSizeT totalWrite ≠ ctx.messageStrlen then
        submitWrite {} (toSizeT totalWrite) ctx
        return .returned
      else
        submitWrite {} (toSizeT totalWrite) ctx
        return .returned

/-- `async_write`. -/
def asyncWrite (fuel : ℕ) (ctx : ClientContext) (message : Bytes) :
    Net TaskEnd :=
  if ctx.socketfd < 0 ∨ ctx.thisAddrInvalid ∨ ctx.resovlerAddrs = [] ∨
      message = [] then do
    submitWrite (makeErrorCode ebadf) 0 ctx
    return .returned
  else
    let ctx := { ctx with clientMessage := message }
    let ctx := { ctx with clientMessageLength := wrapInt ctx.messageStrlen }
    asyncWriteTask fuel ctx.moveConstruct

/-! ## What is sent -/

/-- `write` returns `-1` or the number of bytes it has taken. -/
def WriteContract : Trace → (q : Call) → q.Reply → Prop
  | _, .write _ data, k => k = -1 ∨ 0 ≤ k ∧ k ≤ data.length
  | _, _, _ => True

/-- What has been sent is a prefix of the message, and all of it wherever a
callback has been submitted without an error. -/
structure InOrder (message : Bytes) (h : Trace) : Prop where
  isPrefix : h.sent <+: message
  complete : ∀ s ∈ h.completions, s.ec.IsZero →
    h.sent = message ∧ s.bytes = message.length

/-- The task before it submits: the first `k` bytes have been sent. -/
structure Writing (message : Bytes) (k : ℕ) (h : Trace) : Prop where
  sent : h.sent = message.take k
  pending : h.completions = []
  le : k ≤ message.length

section

variable {message : Bytes} {k : ℕ} {h : Trace} {ctx : ClientContext}

theorem Writing.inOrder (hw : Writing message k h) : InOrder message h :=
  ⟨hw.sent ▸ List.take_prefix k message, by simp [hw.pending]⟩

theorem Writing.errno (hw : Writing message k h) (e : ℤ) :
    Writing message k (h ++ [⟨.errno, e⟩]) :=
  ⟨by simpa using hw.sent, by simpa using hw.pending, hw.le⟩

theorem Writing.failed (hw : Writing message k h) (fd : ℤ) (data : Bytes) :
    Writing message k (h ++ [⟨.write fd data, (-1 : ℤ)⟩]) :=
  ⟨by simpa using hw.sent, by simpa using hw.pending, hw.le⟩

/-- A `write` of the rest of the message sends the bytes that come next. -/
theorem Writing.wrote (hw : Writing message k h) (fd : ℤ) {j : ℕ}
    (hj : j ≤ message.length - k) :
    Writing message (k + j) (h ++ [⟨.write fd
      ((message.drop k).take (message.length - k)), (j : ℤ)⟩]) where
  sent := by
    simp only [Trace.sent_snoc, Trace.sentBy, hw.sent, Int.toNat_natCast,
      List.take_take, Nat.min_eq_left hj, List.take_add]
  pending := by simpa using hw.pending
  le := by
    have := hw.le
    omega

theorem messageStrlen_eq (hnul : 0 ∉ message)
    (hmsg : ctx.clientMessage = message) :
    ctx.messageStrlen = message.length := by
  have htake : message.takeWhile (· != 0) = message :=
    List.takeWhile_eq_self_iff.mpr fun x hx => by
      simpa using fun hx0 : x = 0 => hnul (hx0 ▸ hx)
  rw [ClientContext.messageStrlen, hmsg, htake]

theorem writeContract_reply {fd : ℤ} {data : Bytes} {r : ℤ}
    (hr : WriteContract h (.write fd data) r) :
    r = -1 ∨ ∃ j : ℕ, r = j ∧ j ≤ data.length := by
  rcases hr with hneg | ⟨hnonneg, hle⟩
  · exact Or.inl hneg
  · obtain ⟨j, rfl⟩ := Int.eq_ofNat_of_zero_le hnonneg
    exact Or.inr ⟨j, rfl, Int.ofNat_le.mp hle⟩

/-! ## The helper after a failed `write` -/

variable {ok : Trace → (q : Call) → q.Reply → Prop}

theorem retryTcpwriteInner_behind
    {φ : Trace → Status (Flow (ClientContext × ℕ) ClientContext) → Prop}
    {total full fuel : ℕ} (hfull : full ≤ total)
    (hstuck : fuel = 0 → φ h .stuck)
    (hdone : φ h (.done (.fall (ctx, total)))) :
    (Prog.iterate (retryTcpwriteInner full) fuel (ctx, total)).Sat ok φ h := by
  cases fuel with
  | zero => exact hstuck rfl
  | succ n =>
      rw [Prog.iterate, retryTcpwriteInner, if_neg (Nat.not_lt.mpr hfull)]
      exact hdone

/-- With an offset behind the end of the message the helper writes nothing and
does not report success. It needs an iteration for each retry of its budget. -/
theorem retryTcpwrite_behind {φ : Trace → Status ClientContext → Prop}
    {fuel total full : ℕ} {e : ℤ} (hfull : full < total)
    (hstuck : fuel ≤ ctx.maxRetyCount.toNat → φ h .stuck)
    (hdone : ∀ c : ClientContext, c.isRetrySuccess = false → φ h (.done c)) :
    (retryTcpwrite fuel ctx total full e).Sat ok φ h := by
  unfold retryTcpwrite
  split
  · exact hdone _ rfl
  · split
    · rw [Prog.sat_bind]
      -- the retries left, unless there is not fuel for all of them
      refine Prog.sat_iterate (fun n s h' => (s.2 = total ∧ h' = h) ∧
        (fuel ≤ ctx.maxRetyCount.toNat ∨
          (s.1.maxRetyCount - s.1.connectRetyCount).toNat < n)) ?_ ?_
        fuel _ h ⟨⟨rfl, rfl⟩, by simp only [Int.sub_zero]; omega⟩
      · rintro s h' ⟨⟨-, rfl⟩, hleft⟩
        exact hstuck (hleft.resolve_right (Nat.not_lt_zero _))
      · rintro n ⟨c, t⟩ h' ⟨⟨rfl, rfl⟩, hleft⟩
        rw [retryTcpwriteOuter]
        split
        · next hlt =>
          simp only at hlt hleft
          rw [Prog.sat_bind]
          refine retryTcpwriteInner_behind (Nat.le_of_lt hfull) ?_ ?_
          · rintro rfl
            exact hstuck (Nat.zero_le _)
          · refine ⟨⟨rfl, rfl⟩, ?_⟩
            simp only
            omega
        · -- the outer loop ends with the offset it was given
          have hle : ¬ t ≤ full := Nat.not_le.mpr hfull
          have hlt : ¬ (t < full ∨ t ≤ 0) := by omega
          simpa [hle, hlt] using hdone _ rfl
    · exact hdone _ rfl

/-! ## The task -/

theorem Writing.submit (hw : Writing message k h) (s : Completion)
    (hs : s.ec.IsZero → k = message.length ∧ s.bytes = message.length) :
    InOrder message (h ++ [⟨.submit s, ()⟩]) where
  isPrefix := by simpa using hw.inOrder.isPrefix
  complete := by
    intro s' hs' hzero
    rw [Trace.completions_snoc, hw.pending, Trace.completedBy,
      List.nil_append, List.mem_singleton] at hs'
    subst hs'
    obtain ⟨hk, hbytes⟩ := hs hzero
    exact ⟨by simp [hw.sent, hk], hbytes⟩

/-- The state of the task while `k` bytes have been sent. -/
structure WriteLoop (message : Bytes) (s : ClientContext × ℤ × ℤ)
    (h : Trace) (k : ℕ) : Prop where
  writing : Writing message k h
  message : s.1.clientMessage = message
  written : s.2.1 = k
  totalWrite : s.2.2 = k

/-- What the loop leaves: the whole message is out, or a callback has been
submitted. -/
def WrittenOut (message : Bytes) :
    Trace → Status (Flow (ClientContext × ℤ) TaskEnd) → Prop
  | h, .done (.fall (ctx, totalWrite)) =>
      Writing message message.length h ∧ ctx.clientMessage = message ∧
        totalWrite = message.length
  | h, _ => InOrder message h

/-- What follows a failed `write` after `k` bytes: the helper is called with
the result of the `write` for an offset, which is behind the end of every
message; so an error is submitted. -/
structure FailsAfter (ok : Trace → (q : Call) → q.Reply → Prop)
    (φ : Trace → Status (Flow (ClientContext × ℤ) TaskEnd) → Prop)
    (fuel k : ℕ) (budget : ℤ) (h : Trace) : Prop where
  calling : φ h .calling
  stuck : ∀ e, ok h .errno e → fuel ≤ budget.toNat →
    φ (h ++ [⟨.errno, e⟩]) .stuck
  failed : ∀ e, ok h .errno e → φ (h ++ [⟨.errno, e⟩]) .calling
  submitted : ∀ e c, ok h .errno e →
    φ (h ++ [⟨.errno, e⟩] ++ [⟨.submit (.write (makeErrorCode eio)
      (toSizeT (wrapInt ((k : ℤ) + k))) c), ()⟩]) (.done (.return .returned))

/-- **The rule for an iteration of the task**, in which `k` bytes have been
sent: all of them, or the next `write` takes some, or it fails. -/
theorem sat_asyncWriteStep
    {φ : Trace → Status (Flow (ClientContext × ℤ) TaskEnd) → Prop}
    {J : ClientContext × ℤ × ℤ → Trace → Prop} {fuel : ℕ} {data : Bytes}
    (hdata : ctx.messageFrom k (ctx.messageStrlen - k) = data)
    (hlen : ctx.messageStrlen < 2 ^ 31) (hk : k ≤ ctx.messageStrlen)
    (hcalling : φ h .calling)
    (hall : k = ctx.messageStrlen → φ h (.done (.fall (ctx, (k : ℤ)))))
    (hreply : ∀ r : ℤ, ok h (.write ctx.socketfd data) r →
      r = -1 ∨ ∃ j : ℕ, r = j ∧ k + j ≤ ctx.messageStrlen)
    (hwrote : ∀ j : ℕ, ok h (.write ctx.socketfd data) (j : ℤ) →
      k + j = ctx.messageStrlen → φ (h ++ [⟨.write ctx.socketfd data, (j : ℤ)⟩])
        (.done (.fall (ctx, ((k + j : ℕ) : ℤ)))))
    (hnext : ∀ j : ℕ, ok h (.write ctx.socketfd data) (j : ℤ) →
      k + j < ctx.messageStrlen →
      J (ctx, ((k + j : ℕ) : ℤ), ((k + j : ℕ) : ℤ))
        (h ++ [⟨.write ctx.socketfd data, (j : ℤ)⟩]))
    (hfails : k < ctx.messageStrlen → ok h (.write ctx.socketfd data) (-1 : ℤ) →
      FailsAfter ok φ fuel k ctx.maxRetyCount
        (h ++ [⟨.write ctx.socketfd data, (-1 : ℤ)⟩])) :
    (asyncWriteStep fuel (ctx, (k : ℤ), (k : ℤ))).Sat ok
      (Prog.andThen φ (Prog.afterIter φ J)) h := by
  have hcast : toSizeT (k : ℤ) = k := toSizeT_natCast (by omega)
  rw [asyncWriteStep, hcast]
  split
  · next hlt =>
    rw [wsub_of_le hk (by omega), hdata]
    refine Prog.sat_perform_bind.mpr ⟨hcalling, fun r hr => ?_⟩
    rcases hreply r hr with rfl | ⟨j, rfl, hj⟩
    · have hf := hfails hlt hr
      have hminus : wrapInt (-1) = -1 := wrapInt_of_lt (by omega) (by omega)
      have hbehind : ctx.messageStrlen < toSizeT (-1) := by
        have := toSizeT_of_neg (x := -1) (by omega) (by omega)
        omega
      rw [hminus, if_pos (by omega)]
      refine Prog.sat_perform_bind.mpr ⟨hf.calling, fun e he => ?_⟩
      rw [Prog.sat_bind]
      refine retryTcpwrite_behind hbehind (hf.stuck e he) fun c hc => ?_
      simp only [Prog.andThen_done, hc]
      exact ⟨hf.failed e he, fun _ _ => hf.submitted e c.moveConstruct he⟩
    · have hret : wrapInt (j : ℤ) = j := wrapInt_natCast (by omega)
      have hsum : wrapInt ((k : ℤ) + j) = ((k + j : ℕ) : ℤ) :=
        wrapInt_natCast (by omega)
      have hcast' : toSizeT ((k + j : ℕ) : ℤ) = k + j :=
        toSizeT_natCast (by omega)
      rw [hret, if_neg (Int.not_lt.mpr (Int.natCast_nonneg j)), hsum]
      dsimp only
      rw [hcast']
      split
      · next heq => exact hwrote j hr heq
      · exact hnext j hr (by omega)
  · -- `strlen` is reached
    exact hall (by omega)

/-- One iteration: bytes are sent in order, or the retry fails and an error
is submitted, or the whole message is out. -/
theorem asyncWriteStep_inOrder (hnul : 0 ∉ message)
    (hlen : message.length < 2 ^ 31) {fuel : ℕ} {s : ClientContext × ℤ × ℤ}
    (hs : WriteLoop message s h k) :
    (asyncWriteStep fuel s).Sat WriteContract
      (Prog.andThen (WrittenOut message)
        (Prog.afterIter (WrittenOut message) fun s h =>
          ∃ k, WriteLoop message s h k)) h := by
  obtain ⟨ctx, written, totalWrite⟩ := s
  obtain ⟨hw, hmsg, hwr, htot⟩ := hs
  simp only at hmsg hwr htot
  subst hwr htot
  have hk := hw.le
  have hstrlen := messageStrlen_eq hnul hmsg
  have hdata : ctx.messageFrom k (ctx.messageStrlen - k) =
      (message.drop k).take (message.length - k) := by
    rw [ClientContext.messageFrom, hstrlen, hmsg]
  refine sat_asyncWriteStep hdata (by omega) (by omega) hw.inOrder ?_ ?_ ?_ ?_ ?_
  · rintro rfl
    rw [hstrlen] at hw ⊢
    exact ⟨hw, hmsg, rfl⟩
  · intro r hr
    rcases writeContract_reply hr with hneg | ⟨j, hj, hle⟩
    · exact Or.inl hneg
    · have hrest := List.length_take_le (message.length - k) (message.drop k)
      exact Or.inr ⟨j, hj, by omega⟩
  · intro j _ heq
    have hw' := hw.wrote ctx.socketfd (j := j) (by omega)
    rw [heq, hstrlen] at hw' ⊢
    exact ⟨hw', hmsg, rfl⟩
  · intro j _ hlt
    exact ⟨k + j, hw.wrote ctx.socketfd (by omega), hmsg, rfl, rfl⟩
  · intro _ _
    have hw' := hw.failed ctx.socketfd
      ((message.drop k).take (message.length - k))
    exact ⟨hw'.inOrder, fun e _ _ => (hw'.errno e).inOrder,
      fun e _ => (hw'.errno e).inOrder, fun e c _ =>
        (hw'.errno e).submit _ fun hzero =>
          absurd hzero (makeErrorCode_ne_zero (by decide))⟩

theorem asyncWriteTask_inOrder (hnul : 0 ∉ message)
    (hlen : message.length < 2 ^ 31) (fuel : ℕ)
    (hmsg : ctx.clientMessage = message) :
    (asyncWriteTask fuel ctx).Sat WriteContract
      (fun h _ => InOrder message h) [] := by
  have hw : Writing message 0 [] := ⟨rfl, rfl, Nat.zero_le _⟩
  have hloop : (Prog.iterate (asyncWriteStep fuel) fuel (ctx, 0, 0)).Sat
      WriteContract (WrittenOut message) [] := by
    refine Prog.sat_iterate (fun _ s h => ∃ k, WriteLoop message s h k) ?_ ?_
      fuel _ [] ⟨0, hw, hmsg, rfl, rfl⟩
    · rintro s h ⟨k, hs⟩
      exact hs.writing.inOrder
    · rintro n s h ⟨k, hs⟩
      exact asyncWriteStep_inOrder hnul hlen hs
  rw [asyncWriteTask]
  refine hloop.bind (fun _ hst => hst) (fun _ hst => hst) fun flow h hst => ?_
  cases flow with
  | «return» e => exact hst
  | fall s =>
      obtain ⟨hw, hmsg', htot⟩ := hst
      have hstrlen := messageStrlen_eq hnul hmsg'
      have hcast : toSizeT s.2 = message.length := by
        rw [htot, toSizeT_natCast (by omega)]
      dsimp only
      rw [hstrlen, hcast, if_neg (fun hne => hne rfl)]
      exact ⟨hw.inOrder, fun _ _ => hw.submit _ fun _ => ⟨rfl, rfl⟩⟩

/-- **A message is sent in order and at most once.** At every moment of
`async_write` what has been sent is a prefix of the message, and wherever its
callback has been submitted without an error, all of the message has been sent
and the count submitted is its length. -/
theorem asyncWrite_inOrder (ctx : ClientContext) (message : Bytes)
    (hnul : 0 ∉ message) (hlen : message.length < 2 ^ 31)
    (o : Oracle Call Call.Reply) (ho : o.Obeys WriteContract) (fuel : ℕ) :
    ∀ h, h <+: ((asyncWrite fuel ctx message).exec o []).2 →
      InOrder message h := by
  intro h hh
  have hsat : (asyncWrite fuel ctx message).Sat WriteContract
      (fun h _ => InOrder message h) [] := by
    rw [asyncWrite]
    split
    · have hw : Writing message 0 [] := ⟨rfl, rfl, Nat.zero_le _⟩
      exact ⟨hw.inOrder, fun _ _ => hw.submit _ fun hzero =>
        absurd hzero (makeErrorCode_ne_zero (by decide))⟩
    · exact asyncWriteTask_inOrder hnul hlen fuel rfl
  exact hsat.moments ho (List.nil_prefix) hh

/-- An oracle whose `write`s take half of what they are given. -/
def halfWrites : Oracle Call Call.Reply := fun _ q =>
  match q with
  | .select _ _ => (1 : ℤ)
  | .recv _ _ => none
  | .read _ _ => none
  | .write _ data => ((data.length + 1) / 2 : ℕ)
  | .errno => (0 : ℤ)
  | .sslRead _ => none
  | .sslGetError _ => (0 : ℤ)
  | .pastVector _ => []
  | .submit _ => ()

theorem halfWrites_obeys : halfWrites.Obeys WriteContract := by
  intro h q
  cases q with
  | write fd data =>
      have hle : (data.length + 1) / 2 ≤ data.length := by omega
      exact Or.inr ⟨Int.natCast_nonneg _, Int.ofNat_le.mpr hle⟩
  | _ => trivial

/-- `GET` sent in two pieces. -/
theorem asyncWrite_inOrder_halves :
    Trace.sent ((asyncWrite 9 connected [71, 69, 84]).exec halfWrites []).2 =
        [71, 69, 84] ∧
      ∀ h, h <+: ((asyncWrite 9 connected [71, 69, 84]).exec halfWrites []).2 →
        InOrder [71, 69, 84] h :=
  ⟨by decide +kernel,
    asyncWrite_inOrder _ _ (by decide) (by decide) _ halfWrites_obeys 9⟩

end

end Mtasc
