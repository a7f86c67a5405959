import Mtasc.Client.WriteCount
import Mtasc.Http.Template
import Mtasc.Tls.Socket

/-!
# Writes of arbitrary bytes

`async_write` and `async_write_tls` take a `std::string`, and take its `strlen`
for its length: what is sent without an error is the text in front of the first
NUL. The request of the client tool puts any body behind a `Content-Length`
that counts all of it.

The retry helper of the TLS write is there for an `SSL_write` that would block.
It gives up before it writes.
-/

namespace Mtasc

open Lib

/-- `SSL_write` takes all it is given, or has a result that is not positive. -/
def SslWriteContract : TlsTrace → (q : TlsCall) → q.Reply → Prop
  | _, .sslWrite _ _ num, r => r ≤ 0 ∨ r = num
  | _, _, _ => True

/-- What has been sent, and the count that is reported, are those of the whole
message. -/
def SentWhole (message sent : Bytes) (bytes : ℕ) : Prop :=
  sent = message ∧ bytes = message.length

instance (message sent : Bytes) (bytes : ℕ) :
    Decidable (SentWhole message sent bytes) :=
  inferInstanceAs (Decidable (_ ∧ _))

/-- The count of a callback for a write. -/
def TlsCompletion.bytes : TlsCompletion → ℕ
  | .write _ _ bytes => bytes
  | _ => 0

/-- Wherever a callback of `async_write_tls` has been submitted without an
error, the text of the message has been sent and counted. -/
def TextSent (message : Bytes) (h : TlsTrace) : Prop :=
  ∀ s ∈ h.completions, s.ec.IsZero →
    SentWhole (cString message) h.sent s.bytes

section

variable {message : Bytes} {h : TlsTrace} {ctx : ClientContext}
variable {ok : TlsTrace → (q : TlsCall) → q.Reply → Prop}

/-- The text of a message is the message if it has no NUL. -/
theorem sentWhole_cString_iff {sent : Bytes} {bytes : ℕ}
    (htext : SentWhole (cString message) sent bytes) :
    SentWhole message sent bytes ↔ 0 ∉ message := by
  obtain ⟨rfl, rfl⟩ := htext
  constructor
  · rintro ⟨heq, -⟩
    exact cString_eq_iff.mp heq
  · intro hnul
    exact ⟨cString_eq_iff.mpr hnul, cString_length_eq_iff.mpr hnul⟩

/-! ## The TLS write -/

/-- No callback has been submitted, and what has been sent is a part of the
text. -/
structure Unreported (message : Bytes) (h : TlsTrace) : Prop where
  pending : h.completions = []
  soFar : h.sent <+: cString message

/-- What holds up to the callback and, if that reports no error, of a text that
has been sent and counted, holds throughout. -/
structure WritePost (message : Bytes) (φ : TlsTrace → Prop) : Prop where
  unreported : ∀ h, Unreported message h → φ h
  submit : ∀ h s, Unreported message h →
    (s.ec.IsZero → SentWhole (cString message) h.sent s.bytes) →
    φ (h ++ [⟨.submit s, ()⟩])

theorem textSent_post : WritePost message (TextSent message) := by
  constructor
  · intro h hh s hs
    rw [hh.pending] at hs
    exact absurd hs List.not_mem_nil
  · intro h s hh hs s' hs' hzero
    rw [TlsTrace.completions_snoc, hh.pending] at hs'
    obtain rfl := List.mem_singleton.mp hs'
    rw [TlsTrace.sent_snoc]
    simpa using hs hzero

variable {φ : TlsTrace → Prop}

theorem Unreported.start : Unreported message [] := ⟨rfl, List.nil_prefix⟩

/-- A call that sends nothing. -/
theorem Unreported.other (hh : Unreported message h) {q : TlsCall}
    {r : q.Reply} (hq : TlsTrace.completedBy q r = [])
    (hsent : TlsTrace.sentBy q r = []) : Unreported message (h ++ [⟨q, r⟩]) := by
  constructor
  · rw [TlsTrace.completions_snoc, hh.pending, hq]
    rfl
  · rw [TlsTrace.sent_snoc, hsent, List.append_nil]
    exact hh.soFar

theorem sat_submitText (hφ : WritePost message φ) (hh : Unreported message h)
    {cfg : OpensslConfigure} {s : TlsCompletion}
    (hs : s.ec.IsZero → SentWhole (cString message) h.sent s.bytes) :
    (submitTls cfg s).Sat ok (fun h _ => φ h) h :=
  ⟨hφ.unreported h hh, fun _ _ => hφ.submit h s hh hs⟩

/-- An error is submitted whatever has been sent. -/
theorem sat_submitFailure (hφ : WritePost message φ) (hh : Unreported message h)
    {cfg : OpensslConfigure} {errc : ℤ} (herrc : errc ≠ 0) (ctx : ClientContext)
    (bytes : ℕ) :
    (submitTls cfg (.write (makeErrorCode errc) ctx bytes)).Sat ok
      (fun h _ => φ h) h := by
  refine sat_submitText hφ hh ?_
  intro hzero
  exact absurd hzero (makeErrorCode_ne_zero herrc)

theorem sat_writeTlsTask (hφ : WritePost message φ)
    (hmsg : ctx.clientMessage = message) (hlen : message.length < 2 ^ 31)
    (hctx : ctx.clientMessageLength = (cString message).length)
    (cfg : OpensslConfigure) (fuel : ℕ) :
    (writeTlsTask fuel cfg ctx).Sat SslWriteContract (fun h _ => φ h) [] := by
  have htext := (cString_isPrefix message).length_le
  have hdata : ctx.messageFrom 0 ctx.clientMessageLength.toNat =
      cString message := by
    have hfrom := messageFrom_cString hmsg 0
    rw [messageStrlen_cString hmsg] at hfrom
    rw [hctx, Int.toNat_natCast]
    simpa using hfrom
  rw [writeTlsTask, hdata, hctx]
  refine Prog.sat_perform_bind.mpr
    ⟨hφ.unreported _ .start, fun (r : ℤ) hr => ?_⟩
  -- the one `SSL_write` takes a part of the text
  have hsent : Unreported message ([] ++ [⟨.sslWrite cfg.opensslPtr
      (cString message) ((cString message).length : ℤ), r⟩]) := by
    refine ⟨rfl, ?_⟩
    rw [TlsTrace.sent_snoc]
    exact List.take_prefix _ _
  split
  · refine Prog.sat_perform_bind.mpr
      ⟨hφ.unreported _ hsent, fun tlsErr _ => ?_⟩
    rw [Prog.sat_bind]
    refine sat_sslWriteRetry (Unreported message) (hsent.other rfl rfl) ?_ ?_
      ?_ ?_ ?_
    · exact hφ.unreported
    · intro h e hh
      exact hh.other rfl rfl
    · intro h e hh
      exact hh.other rfl rfl
    · intro c h hh hfailed
      have hno : c.moveConstruct.isRetrySuccess = false := hfailed
      simp only [Prog.andThen_done, hno, Bool.false_eq_true, if_false]
      exact sat_submitFailure hφ hh (by decide) _ _
    · intro _
      exact hφ.unreported _ (hsent.other rfl rfl)
  · split
    · next hpos =>
      -- nothing short of the whole text is taken
      obtain rfl := hr.resolve_left (Int.not_le.mpr hpos)
      refine sat_submitText hφ hsent fun _ => ⟨?_, ?_⟩
      · show (cString message).take (Int.toNat _) ++ [] = _
        rw [Int.toNat_natCast, List.take_length, List.append_nil]
      · exact toSizeT_natCast (by omega)
    · -- the peer has closed the connection
      refine ⟨hφ.unreported _ hsent, fun _ _ => ?_⟩
      refine ⟨hφ.unreported _ (hsent.other rfl rfl), fun _ _ => ?_⟩
      refine ⟨hφ.unreported _ ((hsent.other rfl rfl).other rfl rfl),
        fun _ _ => ?_⟩
      refine ⟨hφ.unreported _
        (((hsent.other rfl rfl).other rfl rfl).other rfl rfl), fun _ _ => ?_⟩
      exact sat_submitFailure hφ
        ((((hsent.other rfl rfl).other rfl rfl).other rfl rfl).other rfl rfl)
        (by decide) _ _

/-- **The TLS write**, for any postcondition of this kind. -/
theorem sat_asyncWriteTls (hφ : WritePost message φ)
    (hlen : message.length < 2 ^ 31) {cfg : OpensslConfigure} {p : Posted}
    (hp : p ∈ asyncWriteTls cfg ctx message) (fuel : ℕ)
    (cfg' : OpensslConfigure) :
    (p.run fuel cfg').Sat SslWriteContract (fun h _ => φ h) [] := by
  have htext := (cString_isPrefix message).length_le
  rw [asyncWriteTls] at hp
  split at hp
  · cases hp
    exact sat_submitFailure hφ .start (by decide) _ _
  · split at hp
    · cases hp
      refine sat_writeTlsTask hφ (by rfl) hlen ?_ cfg' fuel
      show wrapInt ((cString message).length : ℤ) = _
      exact wrapInt_natCast (by omega)
    · cases hp

/-- **When a write is binary-safe.** Wherever a callback is submitted without
an error, all bytes of the message have been sent and counted if and only if
none of them is a NUL; on both transports, whatever part of a `write` is
taken. -/
theorem asyncWrite_whole_iff (ctx : ClientContext) (message : Bytes)
    (hlen : message.length < 2 ^ 31) (fuel : ℕ)
    (o : Oracle Call Call.Reply) (ho : o.Obeys WriteContract)
    (o' : Oracle TlsCall TlsCall.Reply) (ho' : o'.Obeys SslWriteContract)
    (cfg cfg' : OpensslConfigure) :
    let h := ((asyncWrite fuel ctx message).exec o []).2
    (∀ s ∈ Trace.completions h, s.ec.IsZero →
      (SentWhole message (Trace.sent h) s.bytes ↔ 0 ∉ message)) ∧
      ∀ p ∈ asyncWriteTls cfg ctx message,
        let h := ((p.run fuel cfg').exec o' []).2
        ∀ s ∈ TlsTrace.completions h, s.ec.IsZero →
          (SentWhole message (TlsTrace.sent h) s.bytes ↔ 0 ∉ message) := by
  constructor
  · intro s hs hzero
    have hreported := (asyncWrite_reports ctx message hlen fuel).exec ho
    exact sentWhole_cString_iff (hreported.text s hs hzero)
  · intro p hp h s hs hzero
    have hsent := (sat_asyncWriteTls textSent_post hlen hp fuel cfg').exec ho'
    exact sentWhole_cString_iff (hsent s hs hzero)

/-- A connection whose `SSL_write`s take all they are given. -/
def takesAll : Oracle TlsCall TlsCall.Reply := fun h q =>
  match q with
  | .sslWrite _ _ num => num
  | q => willingPeer h q

theorem takesAll_obeys : takesAll.Obeys SslWriteContract := by
  intro h q
  cases q with
  | sslWrite ssl data num => exact Or.inr rfl
  | _ => trivial

/-- `M_openssl_configure` after a handshake. -/
def handshaken : OpensslConfigure :=
  { opensslPtr := some 2, opensslCtxPtr := some 1 }

/-- `GET` on both transports. -/
theorem asyncWrite_whole_iff_get :
    let h := ((asyncWrite 9 connected [71, 69, 84]).exec halfWrites []).2
    (∀ s ∈ Trace.completions h, s.ec.IsZero →
      (SentWhole [71, 69, 84] (Trace.sent h) s.bytes ↔
        0 ∉ ([71, 69, 84] : Bytes))) ∧
      ∀ p ∈ asyncWriteTls handshaken connected [71, 69, 84],
        let h := ((p.run 9 handshaken).exec takesAll []).2
        ∀ s ∈ TlsTrace.completions h, s.ec.IsZero →
          (SentWhole [71, 69, 84] (TlsTrace.sent h) s.bytes ↔
            0 ∉ ([71, 69, 84] : Bytes)) :=
  asyncWrite_whole_iff connected [71, 69, 84] (by decide) 9 halfWrites
    halfWrites_obeys takesAll takesAll_obeys handshaken handshaken

/-- The request of the client tool whose body is `a`, a NUL and `b`. -/
def requestWithNul : Bytes :=
  (syncCreateHttpv1template ['h'] ['/'] ['a', Char.ofNat 0, 'b'] .post []).map
    fun c => UInt8.ofNat c.toNat

/-- Its `Content-Length` is 3, and its body is sent up to the `a`. -/
theorem asyncWrite_truncates :
    let h := ((asyncWrite 20 connected requestWithNul).exec halfWrites []).2
    (∃ head, requestWithNul = head ++ [0, 98] ∧
      (Trace.sent h = head ∧ (Trace.completions h).map Completion.ec = [{}]) ∧
      ∀ p ∈ asyncWriteTls handshaken connected requestWithNul,
        let h := ((p.run 1 handshaken).exec takesAll []).2
        TlsTrace.sent h = head ∧
          (TlsTrace.completions h).map TlsCompletion.ec = [{}]) ∧
      ¬ ∀ (ctx : ClientContext) (message : Bytes) (fuel : ℕ)
        (o : Oracle Call Call.Reply) (o' : Oracle TlsCall TlsCall.Reply)
        (cfg cfg' : OpensslConfigure), message.length < 2 ^ 31 →
        o.Obeys WriteContract → o'.Obeys SslWriteContract →
        let h := ((asyncWrite fuel ctx message).exec o []).2
        (∀ s ∈ Trace.completions h, s.ec.IsZero →
          SentWhole message (Trace.sent h) s.bytes) ∧
          ∀ p ∈ asyncWriteTls cfg ctx message,
            let h := ((p.run fuel cfg').exec o' []).2
            ∀ s ∈ TlsTrace.completions h, s.ec.IsZero →
              SentWhole message (TlsTrace.sent h) s.bytes := by
  refine ⟨⟨requestWithNul.take (requestWithNul.length - 2), ?_, ?_, ?_⟩,
    fun hall => ?_⟩
  · decide +kernel
  · decide +kernel
  · decide +kernel
  · have h := (hall connected requestWithNul 20 halfWrites takesAll handshaken
      handshaken (by decide +kernel) halfWrites_obeys takesAll_obeys).1
    exact absurd h (by decide +kernel)

/-! ## The retry helper of the TLS write -/

/-- `SSL_write` is called. -/
def Writes : TlsTrace → (q : TlsCall) → q.Reply → Prop
  | _, .sslWrite _ _ _, _ => True
  | _, _, _ => False

/-- The next `SSL_write` is asked for bytes behind the end of the message, whose
length is `full`. -/
def Overruns (full k : ℕ) : TlsTrace → (q : TlsCall) → q.Reply → Prop
  | h, .sslWrite _ _ num, _ => (full : ℤ) < k + (h.sent).length + num
  | _, _, _ => False

/-- The helper has returned with a success and has sent what is left of the
message from offset `k` on, without going beyond it. -/
structure CompletesRemainder (message : Bytes) (k : ℕ)
    (run : Status (Except TaskEnd ClientContext) × TlsTrace) : Prop where
  success : ∃ c, run.1 = .done (.ok c) ∧ c.isRetrySuccess = true
  sent : run.2.sent = message.drop k
  within : ¬ Ever (Overruns message.length k) run.2

/-- `SSL_write` would have blocked, the socket gets ready, and each further
`SSL_write` takes some of what it is given. -/
def WouldBlock : TlsTrace → (q : TlsCall) → q.Reply → Prop
  | _, .sslGetError _ _, e => e = sslErrorWantRead ∨ e = sslErrorWantWrite
  | _, .errno, e => e = eagain ∨ e = eintr
  | _, .select _ _, r => 0 < r
  | _, .sslWrite _ _ num, r => 0 < num → 1 ≤ r ∧ r ≤ num
  | _, _, _ => True

/-- **The retry helper of the TLS write never completes anything.** With a
valid context and live handles it returns without a success and without having
called `SSL_write`, whatever the calls return. -/
theorem sslWriteRetry_never (ctx : ClientContext) (hfd : 0 ≤ ctx.socketfd)
    (tls tlsCtx : ℕ) (tlsRet : ℤ) (full k : ℕ)
    (o : Oracle TlsCall TlsCall.Reply) (fuel : ℕ) :
    let run := (sslWriteRetry fuel ctx (some tls) (some tlsCtx) tlsRet full
      k).exec o []
    ((∃ c, run.1 = .done (.ok c) ∧ c.isRetrySuccess = false) ∧
      ¬ Ever Writes run.2) ∧
      ¬ CompletesRemainder ctx.clientMessage k run := by
  intro run
  have hsat : (sslWriteRetry fuel ctx (some tls) (some tlsCtx) tlsRet full
      k).Sat (fun _ _ _ => True) (fun h st => st = .calling ∨
        (∃ c, st = .done (.ok c) ∧ c.isRetrySuccess = false) ∧
          ¬ Ever Writes h) [] := by
    refine sat_sslWriteRetry (fun h => ¬ Ever Writes h) not_ever_nil ?_ ?_ ?_
      ?_ ?_
    · intro _ _
      exact Or.inl rfl
    · intro h e hh
      simpa [Writes] using hh
    · intro h e hh
      simpa [Writes] using hh
    · intro c h hh hfailed
      exact Or.inr ⟨⟨c, rfl, hfailed⟩, hh⟩
    · rintro (hneg | hnone | hnone)
      · exact absurd hfd (Int.not_le.mpr hneg)
      · cases hnone
      · cases hnone
  have hend := (hsat.exec fun _ _ => trivial).resolve_left
    (Prog.exec_ne_calling _ o [])
  refine ⟨hend, fun hcompletes => ?_⟩
  obtain ⟨⟨c, hc, hfailed⟩, -⟩ := hend
  obtain ⟨c', hc', hsuccess⟩ := hcompletes.success
  cases hc.symm.trans hc'
  exact Bool.false_ne_true (hfailed.symm.trans hsuccess)

/-- The first `errno` after an `SSL_write` that would have blocked. -/
theorem sslWriteRetry_never_blocked :
    let run := (sslWriteRetry 9 { connected with
      clientMessage := [71, 69, 84], maxRetyCount := 3 } (some 2) (some 1) 3 3
      1).exec takesAll []
    ((∃ c, run.1 = .done (.ok c) ∧ c.isRetrySuccess = false) ∧
      ¬ Ever Writes run.2) ∧ ¬ CompletesRemainder [71, 69, 84] 1 run :=
  sslWriteRetry_never { connected with
    clientMessage := [71, 69, 84], maxRetyCount := 3 } (by decide) 2 1 3 3 1
    takesAll 9

/-- The connection of an `SSL_write` that would block. -/
def blockedOnce : Oracle TlsCall TlsCall.Reply := fun h q =>
  match q with
  | .sslGetError _ _ => sslErrorWantWrite
  | .errno => eagain
  | q => takesAll h q

theorem blockedOnce_obeys : blockedOnce.Obeys WouldBlock := by
  intro h q
  cases q with
  | sslGetError ssl ret => exact Or.inr rfl
  | errno => exact Or.inl rfl
  | select fd timeout => exact Int.one_pos
  | sslWrite ssl data num => exact fun hpos => ⟨hpos, Int.le_refl num⟩
  | _ => trivial

/-- `errno` is `EAGAIN`, and so it is not `EINTR`. -/
theorem sslWriteRetry_gives_up :
    ¬ ∀ (ctx : ClientContext) (tls tlsCtx : ℕ) (tlsRet : ℤ) (k : ℕ)
      (o : Oracle TlsCall TlsCall.Reply), 0 ∉ ctx.clientMessage →
      k < ctx.clientMessage.length → 0 ≤ ctx.socketfd →
      1 ≤ ctx.maxRetyCount → o.Obeys WouldBlock →
      ∃ fuel, CompletesRemainder ctx.clientMessage k
        ((sslWriteRetry fuel ctx (some tls) (some tlsCtx) tlsRet
          ctx.clientMessage.length k).exec o []) := by
  intro hall
  obtain ⟨fuel, hcompletes⟩ := hall { connected with
    clientMessage := [71, 69, 84], maxRetyCount := 3 } 2 1 3 1 blockedOnce
    (by decide) (by decide) (by decide) (by decide) blockedOnce_obeys
  obtain ⟨c, hc, hsuccess⟩ := hcompletes.success
  cases hc
  exact Bool.false_ne_true hsuccess

end

end Mtasc
