import Mtasc.Client.RetryTls
import Mtasc.Client.Successes

/-!
# What the callback of the TLS read gets

However a run of `async_read_until_tls` goes on, a callback that it submits has
all the bytes received so far, in order. The scan of the main loop never leads
to a callback: a success is one of the helper, after a read of the main loop
has failed, and it is real.
-/

namespace Mtasc

open Lib

/-- A read of the main loop has failed. -/
abbrev mainReadFailed : (q : Call) × q.Reply := ⟨.sslRead 596, none⟩

/-- A success comes after a failed read, with the delimiter and the number of
bytes in the buffer; an error comes with the count 0. -/
def TlsVerdict (delimiter : Bytes) (h : Trace) (ec : ErrorCode) (bytes : ℕ) :
    Prop :=
  ec.IsZero ∧ delimiter <:+: h.received ∧ bytes = h.received.length ∧
      mainReadFailed ∈ h ∨
    ¬ ec.IsZero ∧ bytes = 0

/-- The callbacks submitted so far have got every byte. -/
def TlsDelivered (delimiter : Bytes) (h : Trace) : Prop :=
  ∀ s ∈ h.completions, ∃ ec bytes b ctx, s = .read ec bytes (some b) ctx ∧
    b.readable = h.received ∧ TlsVerdict delimiter h ec bytes

/-- The states the loop of the task passes through. -/
def TlsReadLoop : ReadState × ClientContext × ℤ → Trace → Prop
  | (.verify, ctx, _), h => SslRetrying True .valueInit ctx h
  | (.reading, ctx, _), h => SslRetrying True .valueInit ctx h
  | (.error, ctx, _), h =>
      SslRetrying True .valueInit ctx h ∧ mainReadFailed ∈ h
  | (.found, _, _), h => h.completions = []
  | (.close, _, _), _ => False

/-- How the task ends. -/
def TlsReadEnd (delimiter : Bytes) : Trace → Status TaskEnd → Prop
  | h, .done _ => TlsDelivered delimiter h
  | _, _ => True

/-- What an iteration of the task keeps. -/
abbrev TlsReadIter (delimiter : Bytes) :=
  Prog.andThen (TlsReadEnd delimiter)
    (Prog.afterIter (TlsReadEnd delimiter) TlsReadLoop)

section

variable {delimiter : Bytes} {ctx : ClientContext} {h : Trace} {fuel : ℕ}

theorem tlsDelivered_of_nil (hnone : h.completions = []) :
    TlsDelivered delimiter h := by
  intro s hs
  rw [hnone] at hs
  cases hs

theorem SslRetrying.delivered (hs : SslRetrying True .valueInit ctx h) :
    TlsDelivered delimiter h :=
  tlsDelivered_of_nil (hs.holding trivial).completions

/-- An error number and the count 0 promise nothing. -/
theorem tlsVerdict_error {errc : ℤ} (hne : errc ≠ 0) :
    TlsVerdict delimiter h (makeErrorCode errc) 0 :=
  Or.inr ⟨makeErrorCode_ne_zero hne, rfl⟩

/-- The first callback, with the buffer of the context. -/
theorem Holding.delivers (hs : Holding .valueInit ctx h) {ec : ErrorCode}
    {bytes : ℕ} {c : ClientContext}
    (hverdict : TlsVerdict delimiter h ec bytes) :
    TlsDelivered delimiter
      (h ++ [⟨.submit (.read ec bytes ctx.clientReadBuffer c), ()⟩]) := by
  obtain ⟨b, hb, -, hread⟩ := hs.received_eq
  have hreceived : Trace.received
      (h ++ [⟨.submit (.read ec bytes ctx.clientReadBuffer c), ()⟩]) =
        h.received := by
    simp
  intro s hmem
  rw [Trace.completions_snoc, hs.completions] at hmem
  have hsub : s = .read ec bytes ctx.clientReadBuffer c := by simpa using hmem
  refine ⟨ec, bytes, b, c, by rw [hsub, hb], ?_, ?_⟩
  · rw [hreceived]
    exact hread
  · rw [TlsVerdict, hreceived]
    rcases hverdict with ⟨hzero, hocc, hbytes, hfailed⟩ | herror
    · exact Or.inl ⟨hzero, hocc, hbytes, List.mem_append_left _ hfailed⟩
    · exact Or.inr herror

/-- A callback with an error, at the end of a case. -/
theorem SslRetrying.submitError (hs : SslRetrying True .valueInit ctx h)
    {errc : ℤ} (hne : errc ≠ 0) :
    (submitRead (makeErrorCode errc) 0 ctx >>= fun _ =>
        (pure (.done .returned) :
          Net (Iter (ReadState × ClientContext × ℤ) TaskEnd))).Sat
      (ReadContractIf True) (TlsReadIter delimiter) h := by
  rw [Prog.sat_bind]
  exact sat_submitRead trivial
    ((hs.holding trivial).delivers (tlsVerdict_error hne))

/-- Bytes of a read of the main loop go behind those in the buffer. -/
theorem SslRetrying.appendMain (hs : SslRetrying True .valueInit ctx h)
    {data : Bytes} (hlen : data.length ≤ 596) :
    (∃ c, ctx.appendTobuffer data = .ok c ∧
        SslRetrying True .valueInit c (h ++ [⟨.sslRead 596, some data⟩])) ∨
      ∃ e, ctx.appendTobuffer data = .error e ∧
        Trace.completions (h ++ [⟨.sslRead 596, some data⟩]) = [] := by
  rcases (hs.holding trivial).append (q := .sslRead 596) (r := some data) data
    rfl rfl (by omega) with ⟨b, happ, hheld⟩ | ⟨e, happ, -, hout⟩
  · refine Or.inl ⟨_, happ, fun _ => hheld, fun _ => ?_⟩
    have hle := hs.received_le trivial
    rw [Trace.received_snoc, List.length_append, callsOf_one rfl]
    show h.received.length + data.length ≤ _
    omega
  · exact Or.inr ⟨e, happ, hout.completions⟩

/-! ## The cases -/

theorem readUntilTlsReading_delivers
    (hs : SslRetrying True .valueInit ctx h) :
    (readUntilTlsReading ctx).Sat (ReadContractIf True)
      (TlsReadIter delimiter) h := by
  rw [readUntilTlsReading]
  refine sat_fdSet_bind (fun _ => ?_) fun _ => trivial
  refine Prog.sat_perform_bind.mpr ⟨trivial, fun w _ => ?_⟩
  have hs₁ := hs.other (q := .select ctx.socketfd ctx.timeout) (r := w)
    rfl rfl rfl
  split
  · exact hs₁.submitError (by decide)
  · refine Prog.sat_perform_bind.mpr ⟨trivial, fun r hr => ?_⟩
    rcases r with _ | bytes
    · have hs₂ := hs₁.idle (q := .sslRead 596) (r := none) rfl rfl rfl
      exact ⟨hs₂, by simp⟩
    · rcases bytes with _ | ⟨x, data⟩
      · have hs₂ := hs₁.idle (q := .sslRead 596) (r := some []) rfl rfl rfl
        -- `case FOUND` makes no call: there is no buffer any more
        rw [Prog.sat_bind]
        exact sat_submitRead trivial ((hs₂.holding trivial).delivers
          (tlsVerdict_error (by decide : econnreset ≠ 0)))
      · have hlen : (x :: data).length ≤ 596 := hr trivial _ rfl
        rcases hs₁.appendMain hlen with ⟨c, happ, hs₂⟩ | ⟨e, happ, hnone⟩
        · simp only [happ]
          exact hs₂
        · simp only [happ]
          exact tlsDelivered_of_nil hnone

theorem readUntilTlsVerify_delivers {tlsRet : ℤ}
    (hs : SslRetrying True .valueInit ctx h) :
    (readUntilTlsVerify delimiter ctx tlsRet).Sat (ReadContractIf True)
      (TlsReadIter delimiter) h := by
  rw [readUntilTlsVerify]
  split
  · exact hs.delivered
  · split
    · refine Prog.sat_perform_bind.mpr ⟨trivial, fun past _ => ?_⟩
      have hs₁ := hs.other (q := .pastVector delimiter.length) (r := past)
        rfl rfl rfl
      split
      · exact (hs₁.holding trivial).completions
      · exact readUntilTlsReading_delivers hs₁
    · exact readUntilTlsReading_delivers hs

/-- The helper's success is real. -/
theorem readUntilTlsError_delivers {ssl : ClientSslConfigure} {tlsRet : ℤ}
    (hs : SslRetrying True .valueInit ctx h) (hfailed : mainReadFailed ∈ h) :
    (readUntilTlsError fuel ssl delimiter ctx tlsRet).Sat (ReadContractIf True)
      (TlsReadIter delimiter) h := by
  rw [readUntilTlsError]
  by_cases hvalid : ctx.socketfd < 0 ∨ ssl.opensslPtr = none ∨
      ssl.opensslCtxPtr = none
  · rw [sslReadUntilRetry, sslReadUntilRetryBody, if_pos hvalid]
    exact hs.delivered
  · have hhelper := sslReadUntilRetry_keeps fuel tlsRet delimiter hvalid
      (fun _ => ReadBuffer.valueInit_wellFormed) hs (Nat.le_refl _)
    refine (hhelper.and (Prog.sat_extends _ h)).bind (fun _ _ => trivial)
      (fun _ _ => trivial) ?_
    rintro result h' ⟨hbudget, hle⟩
    have hresult := hbudget.good result rfl
    cases result with
    | error e => exact tlsDelivered_of_nil (hresult trivial).outgrown.completions
    | ok c =>
        have hret := hresult trivial
        have hheld : Holding .valueInit (ctx.moveAssign c) h' :=
          hret.holding.of_eq rfl
        dsimp only
        split
        · next hflag =>
          obtain ⟨b, hb, hocc⟩ := hret.found hflag
          obtain ⟨b', hb', hwf, hreceived⟩ := hret.holding.received_eq
          obtain rfl : b = b' := Option.some.inj (hb.symm.trans hb')
          have hverdict : TlsVerdict delimiter h' {} b.readableBytes := by
            refine Or.inl ⟨rfl, hreceived ▸ hocc, ?_, hle.subset hfailed⟩
            rw [← hreceived]
            exact hwf.readable_length.symm
          rw [Prog.sat_bind]
          refine sat_submitReadable hb trivial ?_
          rw [← hb]
          exact hheld.delivers hverdict
        · refine Prog.sat_perform_bind.mpr ⟨trivial, fun err _ => ?_⟩
          have hheld' := hheld.neutral (q := .sslGetError tlsRet) (r := err)
            rfl rfl
          rw [Prog.sat_bind]
          exact sat_submitRead trivial (hheld'.delivers
            (tlsVerdict_error (by decide : eio ≠ 0)))

theorem readUntilTlsStep_delivers {ssl : ClientSslConfigure}
    {s : ReadState × ClientContext × ℤ} (hs : TlsReadLoop s h) :
    (readUntilTlsStep fuel ssl delimiter s).Sat (ReadContractIf True)
      (TlsReadIter delimiter) h := by
  obtain ⟨state, c, tlsRet⟩ := s
  cases state with
  | verify => exact readUntilTlsVerify_delivers hs
  | reading => exact readUntilTlsReading_delivers hs
  | error => exact readUntilTlsError_delivers hs.1 hs.2
  | close => exact hs.elim
  | found => exact tlsDelivered_of_nil hs

end

/-- **What the callback of the TLS read gets.** Whenever the task of
`async_read_until_tls` ends, a callback that it has submitted has all the bytes
received, in order; without an error the delimiter is among them and a read of
the main loop has failed before. -/
theorem asyncReadUntilTls_delivers (ssl : ClientSslConfigure)
    (ctx : ClientContext) (delimiter : Bytes) (o : Oracle Call Call.Reply)
    (ho : o.Obeys ReadContract) (fuel : ℕ) (e : TaskEnd)
    (hend : ((asyncReadUntilTls fuel ssl ctx delimiter).exec o []).1 =
      .done e) :
    TlsDelivered delimiter
      ((asyncReadUntilTls fuel ssl ctx delimiter).exec o []).2 := by
  have hsat : (asyncReadUntilTls fuel ssl ctx delimiter).Sat
      (ReadContractIf True) (TlsReadEnd delimiter) [] := by
    rw [asyncReadUntilTls]
    split
    · refine ⟨trivial, fun _ _ => ?_⟩
      intro s hs
      have hsub : s = .read (makeErrorCode ebadf) 0 (some .valueInit)
          ctx.moveConstruct := List.mem_singleton.mp hs
      exact ⟨_, _, _, _, hsub, rfl,
        tlsVerdict_error (by decide : ebadf ≠ 0)⟩
    · refine Prog.sat_iterate (fun _ => TlsReadLoop) (fun _ _ _ => trivial)
        (fun _ _ _ hs => readUntilTlsStep_delivers hs) fuel _ [] ?_
      exact .start fun _ => rfl
  have hout := hsat.exec (obeys_readContractIf fun _ => ho)
  rw [hend] at hout
  exact hout

/-- A peer that is not ready at first and then sends a line. -/
def lateLine : Oracle Call Call.Reply := fun h q =>
  match q with
  | .sslRead size => if size = 596 then none else some (List.take size [65, 10])
  | q => dripStream [] h q

theorem lateLine_reads : lateLine.Obeys ReadContract := by
  intro h q
  cases q with
  | recv fd size => exact dripStream_reads [] h (.recv fd size)
  | read fd size => exact dripStream_reads [] h (.read fd size)
  | sslRead size =>
      intro data hdata
      simp only [lateLine] at hdata
      split at hdata
      · cases hdata
      · cases hdata
        exact List.length_take_le size _
  | _ => trivial

theorem asyncReadUntilTls_delivers_late :
    let run := (asyncReadUntilTls 9 ⟨some 2, some 1⟩
      { connected with maxRetyCount := 4 } [10]).exec lateLine []
    (run.1 = .done .returned ∧
        (Trace.completions run.2).map Completion.bytes = [2]) ∧
      TlsDelivered [10] run.2 :=
  ⟨by decide +kernel, asyncReadUntilTls_delivers _ _ _ lateLine
    lateLine_reads 9 .returned (by decide +kernel)⟩

end Mtasc
