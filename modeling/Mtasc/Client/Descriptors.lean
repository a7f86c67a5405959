import Mtasc.Client.Connect
import Mtasc.Lib.Ledger

/-!
# Descriptors while connecting

The resolver opens a descriptor, and `M_tryIpaddrs` opens another one for each
address it tries and closes it again if the address does not accept. The first
that accepts takes the place of the resolver's descriptor in the context, and
that one is never closed.
-/

namespace Mtasc

open Lib

namespace ConnectTrace

/-- What a call does to a descriptor. -/
@[simp] def usedBy : (q : ConnectCall) → q.Reply → List (Use ℤ)
  | .socket _, fd => if fd = -1 then [] else [.acquire fd]
  | .close fd, _ => [.release fd]
  | _, _ => []

def uses (h : ConnectTrace) : List (Use ℤ) :=
  h.flatMap fun e => usedBy e.1 e.2

/-- The descriptors of a run. -/
def descriptors (h : ConnectTrace) : Ledger ℤ :=
  Ledger.run {} (uses h)

@[simp] def acceptedBy : (q : ConnectCall) → q.Reply → Bool
  | .connect _ _, result => result = 0
  | _, _ => false

/-- No address that is tried accepts. -/
def NoneAccepts (h : ConnectTrace) : Prop :=
  ∀ e ∈ h, acceptedBy e.1 e.2 = false

/-- Each descriptor has been closed exactly once, except the one in the
context, which is open. -/
def Conserved (h : ConnectTrace) (ctx : ClientContext) : Prop :=
  descriptors h = { live := [ctx.socketfd] }

instance (h : ConnectTrace) (ctx : ClientContext) :
    Decidable (Conserved h ctx) :=
  inferInstanceAs (Decidable (descriptors h = { live := [ctx.socketfd] }))

@[simp] theorem descriptors_snoc {h : ConnectTrace} {q : ConnectCall}
    {r : q.Reply} :
    descriptors (h ++ [⟨q, r⟩]) = (descriptors h).run (usedBy q r) := by
  simp [descriptors, uses]

theorem noneAccepts_nil : NoneAccepts [] := by
  intro e he
  cases he

@[simp] theorem noneAccepts_snoc {h : ConnectTrace} {q : ConnectCall}
    {r : q.Reply} :
    NoneAccepts (h ++ [⟨q, r⟩]) ↔ NoneAccepts h ∧ acceptedBy q r = false := by
  simp only [NoneAccepts, List.forall_mem_append, List.forall_mem_singleton]

end ConnectTrace

open ConnectTrace

/-- The calls of `async_resolver_domain`. -/
def resolving (o : Oracle ConnectCall ConnectCall.Reply) (ctx : ClientContext)
    (timeout : UInt16) (enableIpv6 : Bool) (maxRetCount : ℤ) : ConnectTrace :=
  ((asyncResolverDomain ctx timeout enableIpv6 maxRetCount).exec o []).2

/-- The calls of `async_try_connect_tcp` after those of `h`. -/
def connecting (o : Oracle ConnectCall ConnectCall.Reply) (fuel : ℕ)
    (ctx : ClientContext) (h : ConnectTrace) : ConnectTrace :=
  ((asyncTryConnectTcp fuel ctx).exec o h).2

section

variable {ok : ConnectTrace → (q : ConnectCall) → q.Reply → Prop}
variable {first : ErrorCode × ClientContext} {ctx : ClientContext}
variable {h : ConnectTrace} {fuel : ℕ} {fd : ℤ}

/-! ## The resolver -/

/-- A context as a resolver without an error delivers it. -/
structure Resolved (ctx : ClientContext) (h : ConnectTrace) : Prop where
  valid : ctx.socketfd ≠ -1
  descriptors : descriptors h = { live := [ctx.socketfd] }
  untried : NoneAccepts h

/-- What holds at every moment of the resolver. -/
def Resolves (h : ConnectTrace) : Prop :=
  ∀ ec c, completions h = [(ec, c)] → ec.IsZero → Resolved c h

theorem resolves_pending (hh : completions h = []) : Resolves h := by
  intro ec c hcomp
  rw [hh] at hcomp
  cases hcomp

theorem submitContext_error {ec : ErrorCode} {code : ℤ} (hec : ¬ ec.IsZero)
    (hh : completions h = []) :
    (submitContext ec ctx code).Sat ok (fun h _ => Resolves h) h := by
  refine ⟨resolves_pending hh, fun _ _ ec' c hcomp hzero => ?_⟩
  rw [completions_snoc, hh] at hcomp
  obtain ⟨rfl, -⟩ := Prod.mk.inj (List.cons.inj hcomp).1
  exact absurd hzero hec

theorem resolveFamily_resolves (family : ℤ) (host : String)
    (ctx : ClientContext) :
    (resolveFamily family host ctx).Sat ok (fun h _ => Resolves h) [] := by
  rw [resolveFamily]
  refine Prog.sat_perform_bind.mpr ⟨resolves_pending rfl,
    fun addrinfo _ => ?_⟩
  cases addrinfo with
  | none => exact resolves_pending rfl
  | some addrs =>
      cases addrs with
      | nil => exact submitContext_error (makeErrorCode_ne_zero (by decide)) rfl
      | cons addr rest =>
          refine Prog.sat_perform_bind.mpr ⟨resolves_pending rfl, fun fd _ => ?_⟩
          dsimp only
          split
          · exact submitContext_error (makeErrorCode_ne_zero (by decide)) rfl
          · rename_i hfd
            refine ⟨resolves_pending rfl, fun _ _ ec c hcomp _ => ?_⟩
            obtain ⟨-, rfl⟩ := Prod.mk.inj (List.cons.inj hcomp).1
            refine ⟨hfd, ?_, ?_⟩
            · rw [descriptors_snoc, descriptors_snoc, usedBy, if_neg hfd]
              rfl
            · rw [noneAccepts_snoc, noneAccepts_snoc, noneAccepts_snoc]
              exact ⟨⟨⟨noneAccepts_nil, rfl⟩, rfl⟩, rfl⟩

theorem asyncResolverDomain_resolves (ctx : ClientContext) (timeout : UInt16)
    (enableIpv6 : Bool) (maxRetCount : ℤ) :
    (asyncResolverDomain ctx timeout enableIpv6 maxRetCount).Sat ok
      (fun h _ => Resolves h) [] := by
  rw [asyncResolverDomain]
  split
  · exact submitContext_error (makeErrorCode_ne_zero (by decide)) rfl
  · split
    · exact submitContext_error (makeErrorCode_ne_zero (by decide)) rfl
    · dsimp only
      split
      · exact resolveFamily_resolves _ _ _
      · exact resolveFamily_resolves _ _ _

/-! ## The connection -/

/-- The candidates of `M_tryIpaddrs` so far have been closed again. -/
structure Trying (first : ErrorCode × ClientContext) (fd : ℤ)
    (h : ConnectTrace) : Prop where
  pending : completions h = [first]
  descriptors : descriptors h = { live := [fd] }
  untried : NoneAccepts h

/-- An address has accepted while the resolver's descriptor was open. -/
structure Leaked (h : ConnectTrace) : Prop where
  live : (descriptors h).live.length = 2
  accepted : ¬ NoneAccepts h

/-- What holds at every moment of the connection. -/
def Balanced (first : ErrorCode × ClientContext) (h : ConnectTrace) : Prop :=
  ∀ ec c, completions h = [first, (ec, c)] →
    (Conserved h c ↔ NoneAccepts h)

theorem balanced_pending (hh : completions h = [first]) : Balanced first h := by
  intro ec c hcomp
  rw [hh] at hcomp
  cases hcomp

theorem Trying.balanced (ht : Trying first fd h) : Balanced first h :=
  balanced_pending ht.pending

theorem Leaked.balanced (hl : Leaked h) : Balanced first h := by
  intro ec c _
  have hnot : ¬ Conserved h c := by
    intro hc
    have hlive := hl.live
    rw [hc] at hlive
    exact absurd hlive (by decide : (1 : ℕ) ≠ 2)
  exact iff_of_false hnot hl.accepted

/-- The context that is left when no address accepts. -/
theorem Trying.balanced_submit (ctx : ClientContext)
    (ht : Trying first ctx.socketfd h) {ec : ErrorCode} :
    Balanced first (h ++ [⟨.submit ec ctx, ()⟩]) := by
  intro ec' c hcomp
  rw [completions_snoc, ht.pending] at hcomp
  obtain rfl : ctx = c := by
    simp at hcomp
    exact hcomp.2
  refine iff_of_true ?_ (noneAccepts_snoc.mpr ⟨ht.untried, rfl⟩)
  rw [Conserved, descriptors_snoc, ht.descriptors]
  rfl

theorem Leaked.snoc (hl : Leaked h) {q : ConnectCall} {r : q.Reply}
    (hq : usedBy q r = []) : Leaked (h ++ [⟨q, r⟩]) := by
  refine ⟨?_, fun hn => hl.accepted (noneAccepts_snoc.mp hn).1⟩
  rw [descriptors_snoc, hq]
  exact hl.live

/-- What is known where `M_tryIpaddrs` ends. -/
def Tried (first : ErrorCode × ClientContext) (ctx : ClientContext)
    (h : ConnectTrace) : Status (Except CallEnd ClientContext) → Prop
  | .done (.ok c) =>
      c = { ctx with thisAddrInvalid := true } ∧ Trying first c.socketfd h ∨
        Leaked h
  | _ => Balanced first h

theorem Trying.closed (ht : Trying first fd h) {addr : Addrinfo} {testFd : ℤ}
    (hfd : testFd ≠ -1) {result : ℤ} (hresult : result ≠ 0) :
    Trying first fd (h ++ [⟨.socket addr, testFd⟩] ++
      [⟨.connect testFd addr, result⟩] ++ [⟨.close testFd, ()⟩]) := by
  refine ⟨?_, ?_, ?_⟩
  · rw [completions_snoc, completions_snoc, completions_snoc, ht.pending]
    rfl
  · rw [descriptors_snoc, descriptors_snoc, descriptors_snoc, ht.descriptors,
      usedBy, if_neg hfd]
    exact Ledger.acquire_release _ _
  · rw [noneAccepts_snoc, noneAccepts_snoc, noneAccepts_snoc]
    exact ⟨⟨⟨ht.untried, rfl⟩, decide_eq_false hresult⟩, rfl⟩

theorem Trying.accepted (ht : Trying first fd h) (addr : Addrinfo) {testFd : ℤ}
    (hfd : testFd ≠ -1) :
    Leaked (h ++ [⟨.socket addr, testFd⟩] ++
      [⟨.connect testFd addr, (0 : ℤ)⟩]) := by
  refine ⟨?_, fun hn => ?_⟩
  · rw [descriptors_snoc, descriptors_snoc, ht.descriptors, usedBy, if_neg hfd]
    rfl
  · exact Bool.noConfusion (noneAccepts_snoc.mp hn).2

theorem tryIpaddrsFrom_tried (addrs : List Addrinfo)
    (ht : Trying first ctx.socketfd h) :
    (tryIpaddrsFrom ctx addrs).Sat ok (Tried first ctx) h := by
  have hopen : ∀ {h : ConnectTrace} (addr : Addrinfo) (testFd : ℤ),
      Trying first ctx.socketfd h →
      completions (h ++ [⟨.socket addr, testFd⟩]) = [first] := by
    intro h addr testFd ht
    rw [completions_snoc, ht.pending]
    rfl
  refine sat_tryIpaddrsFrom (fun _ h => Trying first ctx.socketfd h)
    ?_ ?_ ?_ ?_ ?_ ?_ ?_ ?_ addrs ht
  · intro _ h ht
    exact ht.balanced
  · intro _ _ h ht _
    exact ht
  · intro addr _ h ht _
    exact balanced_pending (hopen addr (-1) ht)
  · intro addr _ h testFd ht _
    exact balanced_pending (hopen addr testFd ht)
  · intro addr _ h testFd result ht _
    refine balanced_pending ?_
    rw [completions_snoc, hopen addr testFd ht]
    rfl
  · intro addr _ h testFd ht _ hfd
    exact Or.inr ((ht.accepted addr hfd).snoc rfl)
  · intro addr _ h testFd result ht _ hfd hresult
    exact ht.closed hfd hresult
  · intro h ht
    exact Or.inl ⟨rfl, ht⟩

theorem submitContext_leaked {ec : ErrorCode} {code : ℤ} (hl : Leaked h) :
    (submitContext ec ctx code).Sat ok (fun h _ => Leaked h) h :=
  ⟨hl, fun _ _ => hl.snoc rfl⟩

theorem retryTcpConnectStep_leaked (hl : Leaked h) :
    (retryTcpConnectStep ctx).Sat ok (fun h _ => Leaked h) h := by
  rw [retryTcpConnectStep]
  split
  · refine Prog.Sat.bind_keeps ⟨hl, fun _ _ => hl.snoc rfl⟩ fun _ h hl => ?_
    split
    · exact hl
    · split
      · dsimp only
        split
        · exact hl
        · refine Prog.Sat.bind_keeps ⟨hl, fun _ _ => hl.snoc rfl⟩
            fun _ h hl => ?_
          split
          · split
            · exact hl
            · exact hl
          · exact hl
      · exact hl
  · exact hl

theorem connectSelectFailed_leaked (hl : Leaked h) :
    (connectSelectFailed fuel ctx).Sat ok (fun h _ => Leaked h) h := by
  rw [connectSelectFailed]
  refine Prog.Sat.bind_keeps ⟨hl, fun _ _ => hl.snoc rfl⟩ fun _ h hl => ?_
  split
  · exact submitContext_leaked hl
  · refine Prog.Sat.bind_keeps ?_ fun result h hl => ?_
    · refine Prog.Sat.bind_keeps ?_ fun _ _ hl => hl
      exact Prog.sat_iterate_keeps (fun _ _ hl => retryTcpConnectStep_leaked hl)
        _ _ hl
    · cases result with
      | error e => exact hl
      | ok c =>
          dsimp only
          split
          · exact submitContext_leaked hl
          · exact Prog.Sat.bind_keeps ⟨hl, fun _ _ => hl.snoc rfl⟩
              fun _ _ hl => submitContext_leaked hl

/-- After an address has accepted, no descriptor is opened or closed. -/
theorem connectResolved_leaked (hl : Leaked h) :
    (connectResolved fuel ctx).Sat ok (fun h _ => Leaked h) h := by
  rw [connectResolved]
  split
  · exact hl
  · refine Prog.Sat.bind_keeps ⟨hl, fun _ _ => hl.snoc rfl⟩ fun _ h hl => ?_
    refine Prog.Sat.bind_keeps ⟨hl, fun _ _ => hl.snoc rfl⟩ fun _ h hl => ?_
    split
    · refine sat_fdSet_bind (fun _ => ?_) fun _ => hl
      refine Prog.Sat.bind_keeps ⟨hl, fun _ _ => hl.snoc rfl⟩ fun _ h hl => ?_
      split
      · exact connectSelectFailed_leaked hl
      · split
        · exact submitContext_leaked hl
        · exact submitContext_leaked hl
    · exact submitContext_leaked hl

theorem asyncTryConnectTcp_balanced (ht : Trying first ctx.socketfd h) :
    (asyncTryConnectTcp fuel ctx).Sat ok (fun h _ => Balanced first h) h := by
  have hsubmit : ∀ (c : ClientContext) (ec : ErrorCode) (code : ℤ)
      (h : ConnectTrace), Trying first c.socketfd h →
      (submitContext ec c code).Sat ok (fun h _ => Balanced first h) h :=
    fun c ec code h ht =>
      ⟨ht.balanced, fun _ _ =>
        Trying.balanced_submit c.moveConstruct ht⟩
  rw [asyncTryConnectTcp]
  split
  · exact hsubmit _ _ _ _ ht
  · split
    · exact hsubmit _ _ _ _ ht
    · have htried : (tryIpaddrs ctx).Sat ok (Tried first ctx) h := by
        rw [tryIpaddrs]
        split
        · exact ht.balanced
        · exact tryIpaddrsFrom_tried _ ht
      refine htried.bind (fun _ hst => hst) (fun _ hst => hst)
        fun result h hst => ?_
      cases result with
      | error e => exact hst
      | ok c =>
          dsimp only
          rcases hst with ⟨hc, ht⟩ | hl
          · have hinvalid : c.thisAddrInvalid = true := by rw [hc]
            rw [if_pos hinvalid]
            exact hsubmit (c.moveAssign c) _ _ _ ht
          · split
            · exact (submitContext_leaked hl).mono fun _ _ hl => hl.balanced
            · exact (connectResolved_leaked hl).mono
                fun _ _ hl => hl.balanced

/-- **When a connection conserves its descriptors.** After a resolver that has
reported no error, for every list of addresses and whatever the calls return:
at the callback of the connection exactly the descriptor of the context is
open if and only if none of the addresses has accepted. -/
theorem connecting_conserved_iff
    (o : Oracle ConnectCall ConnectCall.Reply) (fuel : ℕ)
    (ctx : ClientContext) (timeout : UInt16) (enableIpv6 : Bool)
    (maxRetCount : ℤ) (resolved : ErrorCode × ClientContext) (ec : ErrorCode)
    (c : ClientContext)
    (hresolved : completions (resolving o ctx timeout enableIpv6 maxRetCount) =
      [resolved])
    (hzero : resolved.1.IsZero)
    (hconnected : completions (connecting o fuel resolved.2
      (resolving o ctx timeout enableIpv6 maxRetCount)) = [resolved, (ec, c)]) :
    let run := connecting o fuel resolved.2
      (resolving o ctx timeout enableIpv6 maxRetCount)
    Conserved run c ↔ NoneAccepts run := by
  have hany : o.Obeys fun _ _ _ => True := fun _ _ => trivial
  have hr := (asyncResolverDomain_resolves ctx timeout enableIpv6
    maxRetCount).exec hany _ _ hresolved hzero
  have ht : Trying resolved resolved.2.socketfd
      (resolving o ctx timeout enableIpv6 maxRetCount) :=
    ⟨hresolved, hr.descriptors, hr.untried⟩
  exact (asyncTryConnectTcp_balanced ht).exec hany ec c hconnected

/-- A host with two addresses, the second of which accepts. No descriptor is
handed out twice. -/
def acceptsSecond : Oracle ConnectCall ConnectCall.Reply := fun h q =>
  match q with
  | .getaddrinfo _ _ _ => some [⟨2, 1⟩, ⟨2, 2⟩]
  | .socket _ => (3 + h.length : ℤ)
  | .connect _ addr => if addr.aiAddr = 2 then (0 : ℤ) else (-1 : ℤ)
  | .select _ _ => (1 : ℤ)
  | .errno => econnrefused
  | .setFcntl _ => ()
  | .setReuseaddr _ => ()
  | .close _ => ()
  | .submit _ _ => ()

/-- What the user of the resolver passes. -/
def hosted : ClientContext :=
  { addrsHost := some "localhost", resovlerAddrs := [], socketfd := -1 }

/-- What the resolver delivers for it. -/
def hostedResolved : ClientContext :=
  { hosted with resovlerAddrs := [⟨2, 1⟩, ⟨2, 2⟩], socketfd := 4,
                maxRetyCount := 3 }

theorem connecting_conserved_second :
    let run := connecting acceptsSecond 9 hostedResolved
      (resolving acceptsSecond hosted 20 false 3)
    Conserved run { hostedResolved with socketfd := 9 } ↔ NoneAccepts run :=
  connecting_conserved_iff acceptsSecond 9 hosted 20 false 3
    ({}, hostedResolved) {} { hostedResolved with socketfd := 9 }
    (by decide +kernel) (by decide) (by decide +kernel)

/-- On that host the resolver's descriptor 4 is left open beside 9, the one of
the connection. -/
theorem connecting_leaks :
    let run := connecting acceptsSecond 9 hostedResolved
      (resolving acceptsSecond hosted 20 false 3)
    descriptors run = { live := [9, 4] } ∧
      ¬ ∀ (o : Oracle ConnectCall ConnectCall.Reply) (fuel : ℕ)
        (ctx : ClientContext) (timeout : UInt16) (enableIpv6 : Bool)
        (maxRetCount : ℤ) (resolved : ErrorCode × ClientContext)
        (ec : ErrorCode) (c : ClientContext),
        let h := resolving o ctx timeout enableIpv6 maxRetCount
        completions h = [resolved] → resolved.1.IsZero →
        completions (connecting o fuel resolved.2 h) = [resolved, (ec, c)] →
        Conserved (connecting o fuel resolved.2 h) c := by
  refine ⟨by decide +kernel, fun hall => ?_⟩
  have h := hall acceptsSecond 9 hosted 20 false 3 ({}, hostedResolved) {}
    { hostedResolved with socketfd := 9 } (by decide +kernel) (by decide)
    (by decide +kernel)
  exact absurd h (by decide +kernel)

end

end Mtasc
