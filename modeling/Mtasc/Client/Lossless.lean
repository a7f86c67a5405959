import Mtasc.Client.Read
import Mtasc.Client.ReadTls

/-!
# No received byte is lost

What `async_read` and `async_read_until` hand to their callback is what was in
the buffer at the start and then everything the socket has delivered, on every
path through the loops and the helpers. The invariant is `Holding`. Only a
buffer that would have to outgrow a vector ends a task otherwise.
-/

namespace Mtasc

open Lib

/-- The buffer `b` holds what was in `b₀` and then what has been received. -/
structure Received (b₀ : ReadBuffer) (h : Trace) (b : ReadBuffer) : Prop where
  wellFormed : b.WellFormed
  readable : b.readable = b₀.readable ++ h.received
  size_le : b.buffer.length ≤ b₀.buffer.length + h.received.length

/-- The state of a read before it submits its callback. Nothing is said of the
contents of a buffer that was not well-formed to begin with. -/
structure Holding (b₀ : ReadBuffer) (ctx : ClientContext) (h : Trace) :
    Prop where
  completions : h.completions = []
  buffer : ∃ b, ctx.clientReadBuffer = some b ∧
    (b₀.WellFormed → Received b₀ h b)

/-- No vector can hold what has been received. -/
structure Outgrown (b₀ : ReadBuffer) (h : Trace) : Prop where
  completions : h.completions = []
  big : b₀.WellFormed → maxSize < b₀.buffer.length + h.received.length

/-- The callback has been submitted as the last thing, with every byte. -/
def HandedOver (b₀ : ReadBuffer) (h : Trace) : Prop :=
  ∃ h' ec n b ctx, h = h' ++ [⟨.submit (.read ec n (some b) ctx), ()⟩] ∧
    Trace.completions h' = [] ∧
    (b₀.WellFormed → b.readable = b₀.readable ++ Trace.received h')

/-- How a read ends. -/
def ReadEnd (b₀ : ReadBuffer) : Trace → Status TaskEnd → Prop
  | h, .done .returned => HandedOver b₀ h
  | h, .done _ => Outgrown b₀ h
  | h, _ => h.completions = []

/-- How a helper ends. -/
def HelperEnd (b₀ : ReadBuffer) :
    Trace → Status (Except TaskEnd ClientContext) → Prop
  | h, .done (.ok ctx) => Holding b₀ ctx h
  | h, .done (.error e) => e ≠ .returned ∧ Outgrown b₀ h
  | h, _ => h.completions = []

section

variable {b₀ : ReadBuffer} {ctx : ClientContext} {h : Trace}

theorem Holding.neutral (hs : Holding b₀ ctx h) {q : Call} {r : q.Reply}
    (hrec : Trace.receivedBy q r = []) (hcomp : Trace.completedBy q r = []) :
    Holding b₀ ctx (h ++ [⟨q, r⟩]) where
  completions := by rw [Trace.completions_snoc, hs.completions, hcomp]; rfl
  buffer := by
    obtain ⟨b, hb, hrcv⟩ := hs.buffer
    refine ⟨b, hb, fun hwf => ?_⟩
    have hsame : Trace.received (h ++ [⟨q, r⟩]) = h.received := by
      rw [Trace.received_snoc, hrec, List.append_nil]
    exact ⟨(hrcv hwf).wellFormed, hsame ▸ (hrcv hwf).readable,
      hsame ▸ (hrcv hwf).size_le⟩

/-- Only the buffer of the context matters. -/
theorem Holding.of_eq (hs : Holding b₀ ctx h) {c : ClientContext}
    (hb : c.clientReadBuffer = ctx.clientReadBuffer) : Holding b₀ c h :=
  ⟨hs.completions, hb ▸ hs.buffer⟩

theorem appendTobuffer_ok {data : Bytes} {b b' : ReadBuffer}
    (hb : ctx.clientReadBuffer = some b)
    (happ : b.appendTobuffer data = .ok b') :
    ctx.appendTobuffer data = .ok { ctx with clientReadBuffer := some b' } := by
  rw [ClientContext.appendTobuffer, hb]
  simp only [happ]

/-- A fault of the append is never a return of the task. -/
theorem appendTobuffer_error {data : Bytes} {b : ReadBuffer} {f : BufferFault}
    (hb : ctx.clientReadBuffer = some b)
    (happ : b.appendTobuffer data = .error f) :
    ∃ e, ctx.appendTobuffer data = .error e ∧ e ≠ .returned := by
  rw [ClientContext.appendTobuffer, hb]
  simp only [happ]
  cases f with
  | outOfBounds => exact ⟨.undefined, rfl, by decide⟩
  | lengthError => exact ⟨.threw, rfl, by decide⟩

/-- **An append puts what a read has delivered behind the rest**, or fails for
want of space. -/
theorem Holding.append (hs : Holding b₀ ctx h) {q : Call} {r : q.Reply}
    (data : Bytes) (hrec : Trace.receivedBy q r = data)
    (hcomp : Trace.completedBy q r = []) (hlen : data.length ≤ 4096) :
    (∃ b', ctx.appendTobuffer data =
          .ok { ctx with clientReadBuffer := some b' } ∧
        Holding b₀ { ctx with clientReadBuffer := some b' }
          (h ++ [⟨q, r⟩])) ∨
      ∃ e, ctx.appendTobuffer data = .error e ∧ e ≠ .returned ∧
        Outgrown b₀ (h ++ [⟨q, r⟩]) := by
  obtain ⟨b, hb, hrcv⟩ := hs.buffer
  have hnone : Trace.completions (h ++ [⟨q, r⟩]) = [] := by
    rw [Trace.completions_snoc, hs.completions, hcomp]
    rfl
  have hall : Trace.received (h ++ [⟨q, r⟩]) = h.received ++ data := by
    rw [Trace.received_snoc, hrec]
  have hfits : data.length ≤ maxSize := by
    unfold maxSize
    omega
  cases happ : b.appendTobuffer data with
  | ok b' =>
      refine Or.inl ⟨b', appendTobuffer_ok hb happ, hnone, b', rfl, ?_⟩
      intro hwf
      have hold := hrcv hwf
      rcases hold.wellFormed.appendTobuffer_spec data hfits with
        ⟨b'', hb'', hdone⟩ | ⟨herr, -⟩
      · rw [happ] at hb''
        cases hb''
        refine ⟨hdone.wellFormed, ?_, ?_⟩
        · rw [hdone.readable, hold.readable, hall, List.append_assoc]
        · have hsize := hdone.size_le
          have hold_le := hold.size_le
          have hwrite := hold.wellFormed.write_le
          rw [hall, List.length_append]
          omega
      · rw [happ] at herr
        cases herr
  | error f =>
      obtain ⟨e, he, hne⟩ := appendTobuffer_error hb happ
      refine Or.inr ⟨e, he, hne, hnone, fun hwf => ?_⟩
      have hold := hrcv hwf
      rcases hold.wellFormed.appendTobuffer_spec data hfits with
        ⟨b'', hb'', -⟩ | ⟨-, hbig⟩
      · rw [happ] at hb''
        cases hb''
      · have hold_le := hold.size_le
        have hwrite := hold.wellFormed.write_le
        rw [hall, List.length_append]
        omega

theorem Outgrown.end (hs : Outgrown b₀ h) {e : TaskEnd} (he : e ≠ .returned) :
    ReadEnd b₀ h (.done e) := by
  cases e with
  | returned => exact absurd rfl he
  | threw => exact hs
  | undefined => exact hs

/-- Submitting the callback with the buffer of the context. -/
theorem Holding.submit (hs : Holding b₀ ctx h) {ec : ErrorCode} {n : ℕ}
    {c : ClientContext} :
    ReadEnd b₀
      (h ++ [⟨.submit (.read ec n ctx.clientReadBuffer c), ()⟩])
      (.done .returned) := by
  obtain ⟨b, hb, hrcv⟩ := hs.buffer
  rw [hb]
  exact ⟨h, ec, n, b, c, rfl, hs.completions, fun hwf => (hrcv hwf).readable⟩

section

variable {ok : Trace → (q : Call) → q.Reply → Prop} {ρ σ : Type}
variable {J : σ → Trace → Prop}

/-- `submitRead` at the end of a case of a loop. -/
theorem Holding.submitRead (hs : Holding b₀ ctx h) {ec : ErrorCode} {n : ℕ} :
    (submitRead ec n ctx >>= fun _ =>
        (pure (.done .returned) : Net (Iter σ TaskEnd))).Sat ok
      (Prog.andThen (ReadEnd b₀) (Prog.afterIter (ReadEnd b₀) J)) h := by
  rw [Prog.sat_bind]
  exact sat_submitRead hs.completions hs.submit

theorem Holding.submitReadable (hs : Holding b₀ ctx h) {ec : ErrorCode} :
    (submitReadable ec ctx >>= fun e =>
        (pure (.done e) : Net (Iter σ TaskEnd))).Sat ok
      (Prog.andThen (ReadEnd b₀) (Prog.afterIter (ReadEnd b₀) J)) h := by
  obtain ⟨b, hb, -⟩ := hs.buffer
  rw [Prog.sat_bind]
  have hsub : ReadEnd b₀ (h ++ [⟨.submit (.read ec b.readableBytes
      ctx.clientReadBuffer
      { ctx with clientReadBuffer := none }.moveConstruct), ()⟩])
      (.done .returned) := hs.submit
  rw [hb] at hsub
  exact sat_submitReadable hb hs.completions hsub

end

/-! ## `M_retryTcpRead` -/

/-- What is done with the bytes of a `recv`. -/
theorem retryTcpReadReceived_spec (hs : Holding b₀ ctx h) {fd : ℤ} {n : ℕ}
    {r : Option Bytes} (hr : ∀ data, r = some data → data.length ≤ 1096)
    (chacheSize : ℕ) :
    Prog.afterIter (HelperEnd b₀) (Holding b₀)
      (retryTcpReadReceived chacheSize ctx r) (h ++ [⟨.recv fd n, r⟩]) := by
  cases r with
  | none =>
      have hs' : Holding b₀ ctx (h ++ [⟨.recv fd n, none⟩]) :=
        hs.neutral rfl rfl
      rw [retryTcpReadReceived]
      split
      · exact hs'.of_eq rfl
      · exact hs'
  | some bytes =>
      cases bytes with
      | nil =>
          have hs' : Holding b₀ ctx (h ++ [⟨.recv fd n, some []⟩]) :=
            hs.neutral rfl rfl
          obtain ⟨b, hb, -⟩ := hs.buffer
          simp only [retryTcpReadReceived, hb]
          split
          · exact hs'.of_eq hb.symm
          · exact hs'.of_eq hb.symm
      | cons x data =>
          have hlen : (x :: data).length ≤ 4096 :=
            (hr _ rfl).trans (by omega)
          rcases hs.append (q := .recv fd n) (r := some (x :: data))
            (x :: data) rfl rfl hlen with
            ⟨b', happ, hs'⟩ | ⟨e, happ, hne, hout⟩
          · simp only [retryTcpReadReceived, happ]
            split
            · exact hs'
            · split
              · exact hs'.of_eq rfl
              · exact hs'.of_eq rfl
          · simp only [retryTcpReadReceived, happ]
            exact ⟨hne, hout⟩

theorem retryTcpReadStep_spec (hs : Holding b₀ ctx h) (chacheSize : ℕ) :
    (retryTcpReadStep chacheSize ctx).Sat ReadContract
      (Prog.andThen (HelperEnd b₀)
        (Prog.afterIter (HelperEnd b₀) (Holding b₀))) h := by
  rw [retryTcpReadStep]
  split
  · rw [Prog.sat_bind, Prog.sat_perform]
    refine ⟨hs.completions, fun e _ => ?_⟩
    have hs' := hs.neutral (q := .errno) (r := e) rfl rfl
    rw [Prog.andThen_done]
    split
    · rw [Prog.sat_bind, Prog.sat_perform]
      refine ⟨hs'.completions, fun r hr => ?_⟩
      refine retryTcpReadReceived_spec ?_ hr chacheSize
      exact hs'.of_eq rfl
    · exact hs'.of_eq rfl
  · exact hs.of_eq rfl

theorem retryStart_buffer (ctx : ClientContext) :
    ctx.retryStart.clientReadBuffer = ctx.clientReadBuffer := by
  unfold ClientContext.retryStart
  split <;> rfl

/-- What the loop of a helper keeps, the helper keeps. -/
theorem HelperEnd.map_move {st : Status (Except TaskEnd ClientContext)}
    (hst : HelperEnd b₀ h st) :
    Prog.andThen (HelperEnd b₀) (fun result h =>
      (pure (result.map ClientContext.moveConstruct) :
        Net (Except TaskEnd ClientContext)).Sat ReadContract (HelperEnd b₀) h)
      h st := by
  cases st with
  | calling => exact hst
  | stuck => exact hst
  | undefined => exact hst
  | done r =>
      cases r with
      | error e => exact hst
      | ok c => exact hst.of_eq rfl

theorem retryTcpRead_spec (hs : Holding b₀ ctx h) (fuel : ℕ) (e : ℤ)
    (chacheSize : ℕ) :
    (retryTcpRead fuel ctx e chacheSize).Sat ReadContract (HelperEnd b₀) h := by
  rw [retryTcpRead]
  split
  · exact hs.of_eq rfl
  · rw [Prog.sat_bind]
    have hloop : (Prog.iterate (retryTcpReadStep chacheSize) fuel
        ctx.retryStart).Sat ReadContract (HelperEnd b₀) h := by
      refine Prog.sat_iterate (fun _ ctx h => Holding b₀ ctx h)
        (fun _ _ hs => hs.completions)
        (fun _ _ _ hs => retryTcpReadStep_spec hs chacheSize) fuel _ h ?_
      exact hs.of_eq (retryStart_buffer ctx)
    exact hloop.mono fun _ _ hst => hst.map_move

/-! ## `async_read` -/

/-- The states the loop of `async_read` passes through. -/
def ReadLoop (b₀ : ReadBuffer) (s : BasicReadState × ClientContext)
    (h : Trace) : Prop := Holding b₀ s.2 h

theorem readReading_spec (hs : Holding b₀ ctx h) :
    (readReading ctx).Sat ReadContract
      (Prog.andThen (ReadEnd b₀)
        (Prog.afterIter (ReadEnd b₀) (ReadLoop b₀))) h := by
  rw [readReading, Prog.sat_bind, Prog.sat_perform]
  refine ⟨hs.completions, fun w _ => ?_⟩
  have hs' := hs.neutral (q := .select ctx.socketfd ctx.timeout) (r := w)
    rfl rfl
  rw [Prog.andThen_done]
  split
  · exact hs'
  · rw [Prog.sat_bind, Prog.sat_perform]
    refine ⟨hs'.completions, fun r hr => ?_⟩
    cases r with
    | none =>
        have hs'' := hs'.neutral (q := .recv ctx.socketfd 4096) (r := none)
          rfl rfl
        exact hs''
    | some bytes =>
        cases bytes with
        | nil =>
            have hs'' := hs'.neutral (q := .recv ctx.socketfd 4096)
              (r := some []) rfl rfl
            exact hs''
        | cons x data =>
            rcases hs'.append (q := .recv ctx.socketfd 4096)
              (r := some (x :: data)) (x :: data) rfl rfl (hr _ rfl) with
              ⟨b', happ, hs''⟩ | ⟨e, happ, hne, hout⟩
            · simp only [Prog.andThen_done, happ]
              exact hs''
            · simp only [Prog.andThen_done, happ]
              exact hout.end hne

theorem readClose_spec (hs : Holding b₀ ctx h) :
    (readClose ctx).Sat ReadContract
      (Prog.andThen (ReadEnd b₀)
        (Prog.afterIter (ReadEnd b₀) (ReadLoop b₀))) h := by
  obtain ⟨b, hb, -⟩ := hs.buffer
  rw [readClose, hb]
  dsimp only
  split
  · exact hs.submitRead
  · exact hs.submitRead

theorem readVerify_spec (hs : Holding b₀ ctx h) (chacheSize : ℕ) :
    (readVerify chacheSize ctx).Sat ReadContract
      (Prog.andThen (ReadEnd b₀)
        (Prog.afterIter (ReadEnd b₀) (ReadLoop b₀))) h := by
  obtain ⟨b, hb, -⟩ := hs.buffer
  rw [readVerify, hb]
  dsimp only
  split
  · exact hs
  · exact hs

theorem readError_spec (hs : Holding b₀ ctx h) (fuel chacheSize : ℕ) :
    (readError fuel chacheSize ctx).Sat ReadContract
      (Prog.andThen (ReadEnd b₀)
        (Prog.afterIter (ReadEnd b₀) (ReadLoop b₀))) h := by
  rw [readError, Prog.sat_bind, Prog.sat_perform]
  refine ⟨hs.completions, fun e _ => ?_⟩
  have hs' := hs.neutral (q := .errno) (r := e) rfl rfl
  rw [Prog.andThen_done]
  split
  · exact hs'.submitRead
  · rw [Prog.sat_bind, Prog.sat_perform]
    refine ⟨hs'.completions, fun e' _ => ?_⟩
    have hs'' := hs'.neutral (q := .errno) (r := e') rfl rfl
    rw [Prog.andThen_done]
    refine (retryTcpRead_spec hs'' fuel e' chacheSize).bind (fun _ hst => hst)
      (fun _ hst => hst) fun r h' hst => ?_
    cases r with
    | error e => exact hst.2.end hst.1
    | ok c =>
        have hst : Holding b₀ c h' := hst
        dsimp only
        split
        · have hmoved : Holding b₀ (ctx.moveAssign c) h' := hst.of_eq rfl
          exact hmoved.submitReadable
        · -- the context is the old one, and the buffer is shared
          rw [Prog.sat_bind, Prog.sat_perform]
          refine ⟨hst.completions, fun e'' _ => ?_⟩
          have hst' := hst.neutral (q := .errno) (r := e'') rfl rfl
          have hshared : Holding b₀
              { ctx with clientReadBuffer := c.clientReadBuffer }
              (h' ++ [⟨.errno, e''⟩]) := hst'.of_eq rfl
          exact hshared.submitRead

theorem readStep_spec {s : BasicReadState × ClientContext}
    (hs : ReadLoop b₀ s h) (fuel chacheSize : ℕ) :
    (readStep fuel chacheSize s).Sat ReadContract
      (Prog.andThen (ReadEnd b₀)
        (Prog.afterIter (ReadEnd b₀) (ReadLoop b₀))) h := by
  obtain ⟨state, c⟩ := s
  have hs : Holding b₀ c h := hs
  cases state with
  | reading => exact readReading_spec hs
  | close => exact readClose_spec hs
  | error => exact readError_spec hs fuel chacheSize
  | verify => exact readVerify_spec hs chacheSize
  | done => exact hs.submitReadable

theorem asyncRead_end (b₀ : ReadBuffer) (ctx : ClientContext)
    (chacheSize fuel : ℕ) :
    (asyncRead fuel (some b₀) ctx chacheSize).Sat ReadContract
      (ReadEnd b₀) [] := by
  refine Prog.sat_iterate (fun _ => ReadLoop b₀) (fun _ _ hs => hs.completions)
    (fun _ _ _ hs => readStep_spec hs fuel _) fuel _ [] ?_
  exact ⟨rfl, b₀, rfl, fun hwf => ⟨hwf, (List.append_nil _).symm,
    Nat.le_add_right _ _⟩⟩

/-! ## `M_retryTcpRead_until` -/

theorem retryTcpReadUntilRead_holds (hs : Holding b₀ ctx h) (b : ReadBuffer) :
    (retryTcpReadUntilRead b ctx).Sat ReadContract
      (Prog.andThen (HelperEnd b₀)
        (Prog.afterIter (HelperEnd b₀) (Holding b₀))) h := by
  rw [retryTcpReadUntilRead, Prog.sat_bind, Prog.sat_perform]
  refine ⟨hs.completions, fun r hr => ?_⟩
  cases r with
  | none =>
      have hs' : Holding b₀ ctx (h ++ [⟨.read ctx.socketfd 1086, none⟩]) :=
        hs.neutral rfl rfl
      simp only [Prog.andThen_done]
      split
      · exact hs'.of_eq rfl
      · exact hs'
  | some bytes =>
      cases bytes with
      | nil =>
          have hs' : Holding b₀ ctx
              (h ++ [⟨.read ctx.socketfd 1086, some []⟩]) :=
            hs.neutral rfl rfl
          simp only [Prog.andThen_done]
          split
          · exact hs'.of_eq rfl
          · exact hs'.of_eq rfl
      | cons x data =>
          have hlen : (x :: data).length ≤ 4096 :=
            (hr _ rfl).trans (by omega)
          rcases hs.append (q := .read ctx.socketfd 1086)
            (r := some (x :: data)) (x :: data) rfl rfl hlen with
            ⟨b', happ, hs'⟩ | ⟨e, happ, hne, hout⟩
          · simp only [Prog.andThen_done, happ]
            exact hs'
          · simp only [Prog.andThen_done, happ]
            exact ⟨hne, hout⟩

theorem retryTcpReadUntilStep_holds (hs : Holding b₀ ctx h)
    (delimiter : Bytes) :
    (retryTcpReadUntilStep delimiter ctx).Sat ReadContract
      (Prog.andThen (HelperEnd b₀)
        (Prog.afterIter (HelperEnd b₀) (Holding b₀))) h := by
  rw [retryTcpReadUntilStep]
  split
  · rw [Prog.sat_bind, Prog.sat_perform]
    refine ⟨hs.completions, fun e _ => ?_⟩
    have hs' := hs.neutral (q := .errno) (r := e) rfl rfl
    obtain ⟨b, hb, -⟩ := hs.buffer
    rw [Prog.andThen_done]
    split
    · exact hs'.of_eq rfl
    · split
      · simp only [hb]
        split
        · exact hs'.of_eq hb.symm
        · exact retryTcpReadUntilRead_holds (hs'.of_eq hb.symm) b
      · exact hs'.of_eq rfl
  · exact hs.of_eq rfl

theorem retryTcpReadUntil_holds (hs : Holding b₀ ctx h)
    (hfd : 0 ≤ ctx.socketfd) (fuel : ℕ) (delimiter : Bytes) (e : ℤ) :
    (retryTcpReadUntil fuel ctx delimiter e).Sat ReadContract
      (HelperEnd b₀) h := by
  rw [retryTcpReadUntil, if_neg (Int.not_lt.mpr hfd), Prog.sat_bind]
  have hloop : (Prog.iterate (retryTcpReadUntilStep delimiter) fuel
      ctx.retryStart).Sat ReadContract (HelperEnd b₀) h := by
    refine Prog.sat_iterate (fun _ ctx h => Holding b₀ ctx h)
      (fun _ _ hs => hs.completions)
      (fun _ _ _ hs => retryTcpReadUntilStep_holds hs delimiter) fuel _ h ?_
    exact hs.of_eq (retryStart_buffer ctx)
  exact hloop.mono fun _ _ hst => hst.map_move

/-! ## `async_read_until` -/

/-- The states the loop of `async_read_until` passes through. -/
def ReadUntilLoop (b₀ : ReadBuffer) (s : ReadState × ClientContext)
    (h : Trace) : Prop := 0 ≤ s.2.socketfd ∧ Holding b₀ s.2 h

theorem readUntilError_holds (hfd : 0 ≤ ctx.socketfd)
    (hs : Holding b₀ ctx h) (fuel : ℕ) (delimiter : Bytes) :
    (readUntilError fuel delimiter ctx).Sat ReadContract
      (Prog.andThen (ReadEnd b₀)
        (Prog.afterIter (ReadEnd b₀) (ReadUntilLoop b₀))) h := by
  rw [readUntilError, Prog.sat_bind, Prog.sat_perform]
  refine ⟨hs.completions, fun e _ => ?_⟩
  have hs' := hs.neutral (q := .errno) (r := e) rfl rfl
  rw [Prog.andThen_done]
  refine (retryTcpReadUntil_holds hs' hfd fuel delimiter e).bind
    (fun _ hst => hst) (fun _ hst => hst) fun r h' hst => ?_
  cases r with
  | error e => exact hst.2.end hst.1
  | ok c =>
      have hst : Holding b₀ (ctx.moveAssign c) h' := hst.of_eq rfl
      dsimp only
      split
      · exact hst.submitReadable
      · rw [Prog.sat_bind, Prog.sat_perform]
        refine ⟨hst.completions, fun e' _ => ?_⟩
        exact (hst.neutral (q := .errno) (r := e') rfl rfl).submitRead

/-- `case READING` puts the bytes of a `recv` into the buffer before it falls
into `case ERROR`. -/
theorem readUntilReading_holds (hfd : 0 ≤ ctx.socketfd)
    (hs : Holding b₀ ctx h) (fuel : ℕ) (delimiter : Bytes) :
    (readUntilReading fuel delimiter ctx).Sat ReadContract
      (Prog.andThen (ReadEnd b₀)
        (Prog.afterIter (ReadEnd b₀) (ReadUntilLoop b₀))) h := by
  rw [readUntilReading, Prog.sat_bind, Prog.sat_perform]
  refine ⟨hs.completions, fun w _ => ?_⟩
  have hs' := hs.neutral (q := .select ctx.socketfd ctx.timeout) (r := w)
    rfl rfl
  rw [Prog.andThen_done]
  split
  · exact ⟨hfd, hs'⟩
  · rw [Prog.sat_bind, Prog.sat_perform]
    refine ⟨hs'.completions, fun r hr => ?_⟩
    cases r with
    | none => exact ⟨hfd, hs'.neutral rfl rfl⟩
    | some bytes =>
        cases bytes with
        | nil => exact ⟨hfd, hs'.neutral rfl rfl⟩
        | cons x data =>
            rcases hs'.append (q := .recv ctx.socketfd 4096)
              (r := some (x :: data)) (x :: data) rfl rfl (hr _ rfl) with
              ⟨b', happ, hs''⟩ | ⟨e, happ, hne, hout⟩
            · simp only [Prog.andThen_done, happ]
              refine readUntilError_holds ?_ hs'' fuel delimiter
              exact hfd
            · simp only [Prog.andThen_done, happ]
              exact hout.end hne

theorem readUntilStep_holds {s : ReadState × ClientContext}
    (hs : ReadUntilLoop b₀ s h) (fuel : ℕ) (delimiter : Bytes) :
    (readUntilStep fuel delimiter s).Sat ReadContract
      (Prog.andThen (ReadEnd b₀)
        (Prog.afterIter (ReadEnd b₀) (ReadUntilLoop b₀))) h := by
  obtain ⟨state, c⟩ := s
  obtain ⟨hfd, hs⟩ := hs
  have hs : Holding b₀ c h := hs
  obtain ⟨b, hb, -⟩ := hs.buffer
  cases state with
  | verify =>
      rw [readUntilStep, readUntilVerify, hb]
      dsimp only
      split
      · exact ⟨hfd, hs⟩
      · exact readUntilReading_holds hfd hs fuel delimiter
  | reading => exact readUntilReading_holds hfd hs fuel delimiter
  | found => exact hs.submitReadable
  | error => exact readUntilError_holds hfd hs fuel delimiter
  | close =>
      rw [readUntilStep, readUntilClose, hb]
      dsimp only
      split
      · exact hs.submitRead
      · exact hs.submitRead

theorem asyncReadUntil_end (hfd : 0 ≤ ctx.socketfd) (delimiter : Bytes)
    (fuel : ℕ) :
    (asyncReadUntil fuel ctx delimiter).Sat ReadContract
      (ReadEnd .valueInit) [] := by
  refine Prog.sat_iterate (fun _ => ReadUntilLoop .valueInit)
    (fun _ _ hs => hs.2.completions)
    (fun _ _ _ hs => readUntilStep_holds hs fuel delimiter) fuel _ [] ?_
  exact ⟨hfd, rfl, _, rfl, fun hwf => ⟨hwf, rfl, Nat.le_refl _⟩⟩

/-! ## The callbacks -/

/-- The callback gets the bytes of `start` and then all that were received. -/
def Lossless (start : Bytes) (run : Status TaskEnd × Trace) : Prop :=
  run.1 = .done .returned → ∃ ec n b ctx,
    run.2.completions = [.read ec n (some b) ctx] ∧
      b.readable = start ++ run.2.received

theorem HandedOver.lossless {run : Status TaskEnd × Trace}
    (hrun : ReadEnd b₀ run.2 run.1) (hwf : b₀.WellFormed) :
    Lossless b₀.readable run := by
  intro hret
  rw [hret] at hrun
  obtain ⟨h', ec, n, b, ctx, heq, hcomp, hread⟩ := hrun
  refine ⟨ec, n, b, ctx, ?_, ?_⟩
  · rw [heq, Trace.completions_snoc, hcomp]
    rfl
  · rw [heq, Trace.received_snoc]
    simpa using hread hwf

/-- **No received byte is lost.** Whatever the socket does, the buffer that a
read hands to its callback holds, in order, what was readable in it at the
start and then every byte that `recv` and `read` have delivered. -/
theorem reads_lossless (ctx : ClientContext) (o : Oracle Call Call.Reply)
    (ho : o.Obeys ReadContract) (fuel : ℕ) :
    (∀ b chacheSize, b.WellFormed → Lossless b.readable
      ((asyncRead fuel (some b) ctx chacheSize).exec o [])) ∧
    (0 ≤ ctx.socketfd → ∀ delimiter, Lossless []
      ((asyncReadUntil fuel ctx delimiter).exec o [])) := by
  constructor
  · intro b chacheSize hwf
    exact HandedOver.lossless ((asyncRead_end b ctx chacheSize fuel).exec ho)
      hwf
  · intro hfd delimiter
    exact HandedOver.lossless ((asyncReadUntil_end hfd delimiter fuel).exec ho)
      ReadBuffer.valueInit_wellFormed

theorem silentStream_reads (cs : List Bytes) (e : ℤ) :
    (silentStream cs e).Obeys ReadContract := by
  intro h q
  cases q with
  | recv fd size =>
      intro data hdata
      simp only [silentStream] at hdata
      split at hdata
      · cases hdata
      · cases hdata
        exact takeChunk_length_le size _
  | read fd size =>
      intro data hdata
      simp only [silentStream] at hdata
      split at hdata
      · cases hdata
      · cases hdata
        exact takeChunk_length_le size _
  | sslRead size =>
      intro data hdata
      cases hdata
  | _ => trivial

/-- Two chunks behind a byte that was there, and then a failed retry. -/
theorem reads_lossless_chunks :
    let o := silentStream [[66], [67]] eagain
    let run := (asyncRead 9 (some (.filled [65])) connected 7).exec o []
    (run.1 = .done .returned ∧ Trace.received run.2 = [66, 67]) ∧
      Lossless [65] run ∧
      Lossless [] ((asyncReadUntil 9 connected [10]).exec o []) := by
  have hwf : (ReadBuffer.filled [65]).WellFormed :=
    ReadBuffer.filled_wellFormed (by decide)
  have hall := reads_lossless connected (silentStream [[66], [67]] eagain)
    (silentStream_reads _ _) 9
  exact ⟨⟨by decide +kernel, by decide +kernel⟩, hall.1 _ 7 hwf,
    hall.2 (by decide) [10]⟩

end

end Mtasc
