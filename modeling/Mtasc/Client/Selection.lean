import Mtasc.Client.Descriptors

/-!
# The choice of an address

`M_tryIpaddrs` goes through the resolver's list and connects a test descriptor
to each entry of the family asked for, up to the first that accepts. What it
calls on the way is written out here, entry by entry.
-/

namespace Mtasc

open Lib ConnectTrace

/-! ## Candidates -/

/-- `ai_family` of the entries that are tried. -/
def ClientContext.family (ctx : ClientContext) : ℤ :=
  if ctx.isEnableIpV6 then afInet6 else afInet

/-- The entries of that family, in the order of the list. -/
def candidatesAmong (ctx : ClientContext) (addrs : List Addrinfo) :
    List Addrinfo :=
  addrs.filter fun addr => addr.aiFamily = ctx.family

def ClientContext.candidates (ctx : ClientContext) : List Addrinfo :=
  candidatesAmong ctx ctx.resovlerAddrs

theorem skips_iff {ctx : ClientContext} {addr : Addrinfo} :
    ctx.skips addr = true ↔ addr.aiFamily ≠ ctx.family := by
  rw [ClientContext.skips, ClientContext.family]
  split
  · exact decide_eq_true_iff
  · exact decide_eq_true_iff

theorem candidatesAmong_skip {ctx : ClientContext} {addr : Addrinfo}
    (hskip : ctx.skips addr = true) (rest : List Addrinfo) :
    candidatesAmong ctx (addr :: rest) = candidatesAmong ctx rest :=
  List.filter_cons_of_neg fun h => skips_iff.mp hskip (of_decide_eq_true h)

theorem candidatesAmong_try {ctx : ClientContext} {addr : Addrinfo}
    (hskip : ¬ ctx.skips addr = true) (rest : List Addrinfo) :
    candidatesAmong ctx (addr :: rest) = addr :: candidatesAmong ctx rest := by
  refine List.filter_cons_of_pos (decide_eq_true ?_)
  by_contra hne
  exact hskip (skips_iff.mpr hne)

/-! ## Attempts -/

/-- An attempt that fails, with the test descriptor and what `connect`
returns. -/
structure Refusal where
  addr : Addrinfo
  testFd : ℤ
  result : ℤ
  opened : testFd ≠ -1
  refused : result ≠ 0

/-- The calls of a failed attempt. The test descriptor is closed. -/
def Refusal.calls (a : Refusal) : ConnectTrace :=
  [⟨.socket a.addr, a.testFd⟩, ⟨.connect a.testFd a.addr, a.result⟩,
    ⟨.close a.testFd, ()⟩]

/-- The calls of the attempt that succeeds. -/
def acceptance (addr : Addrinfo) (testFd : ℤ) : ConnectTrace :=
  [⟨.socket addr, testFd⟩, ⟨.connect testFd addr, (0 : ℤ)⟩,
    ⟨.setReuseaddr testFd, ()⟩]

/-- **The choice.** The context it makes of `ctx`, and the calls for it: the
first candidate that accepts comes after failed attempts at all the candidates
in front of it, or else all the candidates have refused. -/
inductive Selects (ctx : ClientContext) : ClientContext → ConnectTrace → Prop
  | accepted (refusals : List Refusal) (addr : Addrinfo) (testFd : ℤ)
      (rest : List Addrinfo) (hopen : testFd ≠ -1)
      (hcandidates :
        ctx.candidates = refusals.map Refusal.addr ++ addr :: rest) :
      Selects ctx { ctx with socketfd := testFd, thisAddrInvalid := false }
        (refusals.flatMap Refusal.calls ++ acceptance addr testFd)
  | refused (refusals : List Refusal)
      (hcandidates : ctx.candidates = refusals.map Refusal.addr) :
      Selects ctx { ctx with thisAddrInvalid := true }
        (refusals.flatMap Refusal.calls)

/-- What is open behind it: the selected test descriptor and no other. -/
def testDescriptors (c : ClientContext) : List ℤ :=
  if c.thisAddrInvalid then [] else [c.socketfd]

/-! ## Descriptors -/

theorem uses_append (h h' : ConnectTrace) : uses (h ++ h') = uses h ++ uses h' :=
  List.flatMap_append

theorem Refusal.run_calls (a : Refusal) (l : Ledger ℤ) :
    l.run (uses a.calls) = l := by
  have huses : uses a.calls = [.acquire a.testFd, .release a.testFd] := by
    show (usedBy (.socket a.addr) a.testFd ++ _ : List (Use ℤ)) = _
    rw [usedBy, if_neg a.opened]
    rfl
  rw [huses]
  exact Ledger.acquire_release l a.testFd

theorem run_refusals (refusals : List Refusal) (l : Ledger ℤ) :
    l.run (uses (refusals.flatMap Refusal.calls)) = l := by
  induction refusals with
  | nil => rfl
  | cons a refusals ih =>
      rw [List.flatMap_cons, uses_append, Ledger.run_append, a.run_calls]
      exact ih

theorem Selects.descriptors {ctx c : ClientContext} {h : ConnectTrace}
    (hs : Selects ctx c h) : descriptors h = { live := testDescriptors c } := by
  cases hs with
  | accepted refusals addr testFd rest hopen =>
      have huses : uses (acceptance addr testFd) = [.acquire testFd] := by
        show (usedBy (.socket addr) testFd ++ _ : List (Use ℤ)) = _
        rw [usedBy, if_neg hopen]
        rfl
      rw [ConnectTrace.descriptors, uses_append, Ledger.run_append,
        run_refusals, huses]
      rfl
  | refused refusals =>
      rw [ConnectTrace.descriptors, run_refusals]
      rfl

/-! ## The loop -/

/-- How `M_tryIpaddrs` ends after the history `h₀`. -/
def SelectionEnd (ctx : ClientContext) (h₀ h : ConnectTrace) :
    Status (Except CallEnd ClientContext) → Prop
  | .calling => True
  | .done (.ok c) => ∃ tail, h = h₀ ++ tail ∧ Selects ctx c tail
  | _ => False

/-- The invariant of the loop, in front of the entries `addrs`: the attempts at
the candidates before them have failed. -/
def Selecting (ctx : ClientContext) (h₀ : ConnectTrace) (addrs : List Addrinfo)
    (h : ConnectTrace) : Prop :=
  ∃ refusals : List Refusal, h = h₀ ++ refusals.flatMap Refusal.calls ∧
    ctx.candidates = refusals.map Refusal.addr ++ candidatesAmong ctx addrs

theorem Selecting.accepts {ctx : ClientContext} {h₀ h : ConnectTrace}
    {addr : Addrinfo} {rest : List Addrinfo} {testFd : ℤ}
    (hvalid : ctx.thisAddrInvalid = false)
    (hs : Selecting ctx h₀ (addr :: rest) h) (hskip : ctx.skips addr ≠ true)
    (hopen : testFd ≠ -1) :
    SelectionEnd ctx h₀ (h ++ [⟨.socket addr, testFd⟩] ++
        [⟨.connect testFd addr, (0 : ℤ)⟩] ++ [⟨.setReuseaddr testFd, ()⟩])
      (.done (.ok { ctx with socketfd := testFd })) := by
  obtain ⟨refusals, rfl, hcandidates⟩ := hs
  rw [candidatesAmong_try hskip] at hcandidates
  refine ⟨refusals.flatMap Refusal.calls ++ acceptance addr testFd, ?_, ?_⟩
  · rw [List.append_assoc, List.append_assoc, List.append_assoc]
    rfl
  · show Selects ctx { ctx with
      socketfd := testFd, thisAddrInvalid := ctx.thisAddrInvalid } _
    rw [hvalid]
    exact .accepted refusals addr testFd _ hopen hcandidates

/-- The attempt joins the failed ones. -/
theorem Selecting.refuses {ctx : ClientContext} {h₀ h : ConnectTrace}
    {addr : Addrinfo} {rest : List Addrinfo} {testFd result : ℤ}
    (hs : Selecting ctx h₀ (addr :: rest) h) (hskip : ctx.skips addr ≠ true)
    (hopen : testFd ≠ -1) (hresult : result ≠ 0) :
    Selecting ctx h₀ rest (h ++ [⟨.socket addr, testFd⟩] ++
      [⟨.connect testFd addr, result⟩] ++ [⟨.close testFd, ()⟩]) := by
  obtain ⟨refusals, rfl, hcandidates⟩ := hs
  rw [candidatesAmong_try hskip] at hcandidates
  refine ⟨refusals ++ [⟨addr, testFd, result, hopen, hresult⟩], ?_, ?_⟩
  · rw [List.flatMap_append, ← List.append_assoc, List.append_assoc,
      List.append_assoc]
    rfl
  · rw [hcandidates, List.map_append, List.append_assoc]
    rfl

theorem tryIpaddrs_end {ok : ConnectTrace → (q : ConnectCall) → q.Reply → Prop}
    (hsocket : ∀ h addr (fd : ℤ), ok h (.socket addr) fd → fd ≠ -1)
    {ctx : ClientContext} (haddrs : ctx.resovlerAddrs ≠ [])
    (hvalid : ctx.thisAddrInvalid = false) (h : ConnectTrace) :
    (tryIpaddrs ctx).Sat ok (SelectionEnd ctx h) h := by
  rw [tryIpaddrs, if_neg haddrs]
  refine sat_tryIpaddrsFrom (Selecting ctx h) ?_ ?_ ?_ ?_ ?_ ?_ ?_ ?_ _
    ⟨[], (List.append_nil h).symm, rfl⟩
  · intro _ h _
    trivial
  · rintro addr rest h ⟨refusals, rfl, hcandidates⟩ hskip
    refine ⟨refusals, rfl, ?_⟩
    rw [hcandidates, candidatesAmong_skip hskip]
  · intro addr _ h _ hfd
    exact absurd rfl (hsocket h addr (-1) hfd)
  · intro _ _ h _ _ _
    trivial
  · intro _ _ h _ _ _ _
    trivial
  · intro addr rest h testFd hs hskip hopen
    exact hs.accepts hvalid hskip hopen
  · intro addr rest h testFd result hs hskip hopen hresult
    exact hs.refuses hskip hopen hresult
  · rintro h ⟨refusals, rfl, hcandidates⟩
    refine ⟨_, rfl, .refused refusals ?_⟩
    rw [hcandidates]
    exact List.append_nil _

/-- **The selection of an address.** For every list of addresses, of whatever
families, and whatever `connect` returns: the candidates are tried in the order
of the list up to the first that accepts. The context gets its descriptor; if
there is none, the context is marked. Nothing else in it changes, and each test
descriptor is closed exactly once, except the selected one, which is open. -/
theorem tryIpaddrs_selects (o : Oracle ConnectCall ConnectCall.Reply)
    (ctx : ClientContext) (h : ConnectTrace)
    (haddrs : ctx.resovlerAddrs ≠ [])
    (hvalid : ctx.thisAddrInvalid = false)
    (hsocket : ∀ h addr, o h (.socket addr) ≠ (-1 : ℤ)) :
    ∃ c tail,
      (tryIpaddrs ctx).exec o h = (.done (.ok c), h ++ tail) ∧
        Selects ctx c tail ∧
        descriptors tail = { live := testDescriptors c } := by
  have hsat : (tryIpaddrs ctx).Sat (fun h q r => r = o h q)
      (SelectionEnd ctx h) h := by
    refine tryIpaddrs_end ?_ haddrs hvalid h
    intro h addr fd hfd
    rw [hfd]
    exact hsocket h addr
  rcases hsat.exec_ends fun _ _ => rfl with
    ⟨h', -, hstuck⟩ | ⟨h', -, hundefined⟩ | ⟨result, h', hrun, hend⟩
  · exact hstuck.elim
  · exact hundefined.elim
  · cases result with
    | error e => exact hend.elim
    | ok c =>
        obtain ⟨tail, rfl, hs⟩ := hend
        exact ⟨c, tail, hrun, hs, hs.descriptors⟩

/-- A host with an address of the other family in front. -/
def hostedMixed : ClientContext :=
  { hosted with resovlerAddrs := [⟨10, 3⟩, ⟨2, 1⟩, ⟨10, 2⟩, ⟨2, 2⟩],
                socketfd := 4 }

theorem tryIpaddrs_selects_mixed :
    ∃ c tail,
      (tryIpaddrs hostedMixed).exec acceptsSecond [] = (.done (.ok c), tail) ∧
        Selects hostedMixed c tail ∧
        descriptors tail = { live := testDescriptors c } := by
  refine tryIpaddrs_selects acceptsSecond hostedMixed [] (by decide) rfl ?_
  intro h addr
  show (3 + h.length : ℤ) ≠ -1
  omega

example :
    ((tryIpaddrs hostedMixed).exec acceptsSecond []).1 =
      .done (.ok { hostedMixed with socketfd := 6 }) := by
  decide +kernel

end Mtasc
