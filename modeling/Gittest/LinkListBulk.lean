import Gittest.LinkListSequence
import Gittest.Proof.LinkListPayloads

/-!
# Bulk deletion

`llist_travel_delete` follows a sweep over the addresses that the nodes have on entry: no link is
looked at in it, and none of a node that is gone is followed by the code. Where `op` does nothing and
`cmp` is pure the list is what repeated `llist_delet` leaves, and what `llist_check` leaves; the latter
counts with an `int`.
-/

namespace Gittest

open Outcome

variable {α β σ : Type}

/-! ### Pure callbacks -/

namespace Callback

/-- It does nothing and returns `r`. -/
def constant (r : Int) : Callback α σ Int where
  run _ := return r
  keeps _ _ := fun _ => rfl

/-- A pure `cmp`: it reads the payload it is handed. -/
def compare (f : α → Int) : Callback α σ Int where
  run a s := match s.payload a with
    | some x => .ok (f x, s)
    | none => .error .uninitialised
  keeps a s := by
    cases s.payload a with
    | none => trivial
    | some x => exact fun _ => rfl

/-- It changes nothing, and never returns `LLIST_TRAVEL_BREAK`. -/
def Idle (op : Callback α σ Int) : Prop :=
  ∀ a s, (s.payload a).isSome → ∃ flag, op.run a s = .ok (flag, s) ∧ flag ≠ llistTravelBreak

/-- A pure `cmp` with its key. -/
def Computes (cmp : Callback α σ Int) (f : α → Int) : Prop :=
  ∀ a s x, s.payload a = some x → cmp.run a s = .ok (f x, s)

/-- A pure predicate that is 0 exactly where `f` is. -/
def ZeroWhere (check : Callback α σ Int) (f : α → Int) : Prop :=
  ∀ a s x, s.payload a = some x → ∃ r, check.run a s = .ok (r, s) ∧ (r = 0 ↔ f x = 0)

/-- A `node_op` that touches no payload but the one it is handed. It may fail as `err` says. -/
def HandedOnly (err : Fault → Prop) (op : Callback α σ Unit) : Prop :=
  ∀ a s, (s.payload a).isSome →
    Meets (fun result => ∀ b, b ≠ a → result.2.payload b = s.payload b) err (op.run a s)

end Callback

/-- `cmp` finds the node different from its key. -/
def misses (f : α → Int) (node : Addr × α) : Bool := !hits f node

/-! ### The sweep -/

/-- A visited element, with what `op` and `cmp` returned for it. -/
structure Visit where
  node : Addr
  flag : Int
  diff : Int

/-- `cmp`, and where it is 0 `node_op`, after which the payload is gone. -/
def matchPayload (cmp : Callback α σ Int) (nodeOp : Option (Callback α σ Unit)) (a : Addr) :
    PayloadM α σ Int := do
  let diff ← cmp.run a
  if diff = 0 then
    releasePayload nodeOp a
    return diff
  else
    return diff

/-- The calls that a bulk deletion makes, in their order. -/
def sweep (op cmp : Callback α σ Int) (nodeOp : Option (Callback α σ Unit)) :
    List Addr → PayloadM α σ (List Visit)
  | [] => return []
  | a :: rest => do
      let flag ← op.run a
      let diff ← matchPayload cmp nodeOp a
      if flag = llistTravelBreak then
        return [⟨a, flag, diff⟩]
      else
        let visits ← sweep op cmp nodeOp rest
        return ⟨a, flag, diff⟩ :: visits

/-- The elements up to and including the first for which `op` returned `LLIST_TRAVEL_BREAK`, or all. -/
structure VisitedPart (nodes : List Addr) (visits : List Visit) : Prop where
  inOrder : visits.map Visit.node = nodes.take visits.length
  goesOn : ∀ visit ∈ visits.dropLast, visit.flag ≠ llistTravelBreak
  ends : visits.length = nodes.length ∨ ∃ visit ∈ visits.getLast?, visit.flag = llistTravelBreak

def removed (visits : List Visit) : List Addr :=
  (visits.filter fun visit => visit.diff = 0).map Visit.node

/-- The visited elements that stay, and those that were not visited. -/
def survivors (nodes : List Addr) (visits : List Visit) : List Addr :=
  (visits.filter fun visit => visit.diff ≠ 0).map Visit.node ++ nodes.drop visits.length

/-- `llist_delet` until it returns -1; it is called as often as `rounds` at most. -/
def deletUntilNone (ptr : Addr) (cmp : LlistCmp α σ) (nodeOp : Option (LlistNodeOp α σ)) :
    Nat → MemM α σ Unit
  | 0 => throw .diverges
  | rounds + 1 => do
      if (← llistDelet ptr cmp nodeOp) = -1 then
        return
      else
        deletUntilNone ptr cmp nodeOp rounds

/-- What the visits make of the list at `ptr`; the nodes in `done` are behind them. -/
structure Swept (m : Mem α σ) (ptr : Addr) (size : Int) (done nodes : List Addr) (visits : List Visit)
    (m' : Mem α σ) : Prop where
  chain : m'.Chain ptr size (done ++ survivors nodes visits)
  live : ∀ b, b ∈ m'.live ↔ b ∈ m.live ∧ b ∉ removed visits

theorem survivors_cons (a : Addr) (nodes : List Addr) (visit : Visit) (visits : List Visit) :
    survivors (a :: nodes) (visit :: visits)
      = (if visit.diff = 0 then [] else [visit.node]) ++ survivors nodes visits := by
  by_cases hdiff : visit.diff = 0
  · simp [survivors, hdiff]
  · simp [survivors, hdiff]

theorem mem_removed_cons {b : Addr} {visit : Visit} {visits : List Visit} :
    b ∈ removed (visit :: visits) ↔ (visit.diff = 0 ∧ b = visit.node) ∨ b ∈ removed visits := by
  by_cases hdiff : visit.diff = 0
  · simp [removed, hdiff]
  · simp [removed, hdiff]

theorem VisitedPart.nil : VisitedPart [] [] := ⟨rfl, by simp, Or.inl rfl⟩

theorem VisitedPart.last {a : Addr} {nodes : List Addr} {flag : Int} (diff : Int)
    (hflag : flag = llistTravelBreak) : VisitedPart (a :: nodes) [⟨a, flag, diff⟩] :=
  ⟨rfl, by simp, Or.inr ⟨_, rfl, hflag⟩⟩

theorem VisitedPart.cons {a : Addr} {nodes : List Addr} {flag : Int} {visits : List Visit} (diff : Int)
    (hflag : flag ≠ llistTravelBreak) (hvisited : VisitedPart nodes visits) :
    VisitedPart (a :: nodes) (⟨a, flag, diff⟩ :: visits) where
  inOrder := by
    rw [List.map_cons, hvisited.inOrder, List.length_cons, List.take_succ_cons]
  goesOn := by
    intro visit hmem
    cases visits with
    | nil => simp at hmem
    | cons second rest =>
        rw [List.dropLast_cons_of_ne_nil (by simp)] at hmem
        rcases List.mem_cons.mp hmem with rfl | hmem
        · exact hflag
        · exact hvisited.goesOn visit hmem
  ends := by
    rcases hvisited.ends with hall | ⟨visit, hlast, hbreak⟩
    · exact Or.inl (by rw [List.length_cons, List.length_cons, hall])
    · refine Or.inr ⟨visit, ?_, hbreak⟩
      rw [List.getLast?_cons, Option.mem_def.mp hlast]
      rfl

/-! ### The loops -/

section Loops

variable {m : Mem α σ} {ptr a : Addr} {size : Int} {us vs nodes : List Addr}

theorem Swept.none (hchain : m.Chain ptr size us) : Swept m ptr size us [] [] m where
  chain := by
    rw [survivors]
    simpa using hchain
  live := by simp [removed]

/-- What a visit makes of the list. -/
theorem deleteMatch_simulates (cmp : Callback α σ Int) (nodeOp : Option (Callback α σ Unit))
    (hchain : m.Chain ptr size (us ++ a :: vs)) :
    Simulates Mem.payloads
      (fun _ diff m' => m'.Chain ptr size (us ++ (if diff = 0 then [] else [a]) ++ vs) ∧
        ∀ b, b ∈ m'.live ↔ b ∈ m.live ∧ ¬(diff = 0 ∧ b = a))
      (deleteMatch cmp.onHeap (nodeOp.map Callback.onHeap) a m)
      (matchPayload cmp nodeOp a m.payloads) := by
  rw [deleteMatch, matchPayload]
  apply (cmp.onHeap_simulates hchain a).bind
  rintro diff _ m₁ ⟨rfl, hchain₁, hlive₁⟩
  by_cases hdiff : diff = 0
  · rw [if_pos hdiff, if_pos hdiff]
    apply (removeNode_simulates nodeOp hchain₁).pure_right
    rintro _ _ m₂ ⟨hchain₂, hlive₂⟩
    refine ⟨by simpa [hdiff] using hchain₂, fun b => ?_⟩
    rw [hlive₂, hlive₁, Finset.mem_erase]
    tauto
  · rw [if_neg hdiff, if_neg hdiff]
    apply Simulates.pure_pure
    refine ⟨by simpa [hdiff] using hchain₁, fun b => ?_⟩
    rw [hlive₁]
    tauto

/-- The visit to `a`, and then those to the nodes behind it. -/
theorem Swept.cons {m₁ m₂ m' : Mem α σ} {flag diff : Int} {visits : List Visit}
    (hlive₁ : m₁.live = m.live)
    (hlive₂ : ∀ b, b ∈ m₂.live ↔ b ∈ m₁.live ∧ ¬(diff = 0 ∧ b = a))
    (hswept : Swept m₂ ptr size (us ++ if diff = 0 then [] else [a]) nodes visits m') :
    Swept m ptr size us (a :: nodes) (⟨a, flag, diff⟩ :: visits) m' where
  chain := by
    rw [survivors_cons, ← List.append_assoc]
    exact hswept.chain
  live := by
    intro b
    rw [hswept.live b, hlive₂ b, hlive₁, mem_removed_cons]
    tauto

/-- `op` breaks at `a`: nothing behind it is visited. -/
theorem Swept.single {m₁ m₂ : Mem α σ} {flag diff : Int} (hlive₁ : m₁.live = m.live)
    (hlive₂ : ∀ b, b ∈ m₂.live ↔ b ∈ m₁.live ∧ ¬(diff = 0 ∧ b = a))
    (hchain : m₂.Chain ptr size (us ++ (if diff = 0 then [] else [a]) ++ nodes)) :
    Swept m ptr size us (a :: nodes) [⟨a, flag, diff⟩] m₂ := by
  apply Swept.cons hlive₁ hlive₂
  refine ⟨?_, by simp [removed]⟩
  simpa [survivors] using hchain

theorem travelDeleteFrom_simulates (op cmp : Callback α σ Int) (nodeOp : Option (Callback α σ Unit))
    {done rest : List Addr} {cur : Addr} {rounds : Nat} (hchain : m.Chain ptr size (done ++ rest))
    (hcur : (rest ++ [ptr]).head? = some cur) (hrounds : rest.length < rounds) :
    Simulates Mem.payloads
      (fun _ visits m' => VisitedPart rest visits ∧ Swept m ptr size done rest visits m')
      (travelDeleteFrom op.onHeap cmp.onHeap (nodeOp.map Callback.onHeap) ptr rounds cur m)
      (sweep op cmp nodeOp rest m.payloads) := by
  induction rest generalizing m done cur rounds with
  | nil =>
      obtain ⟨rounds, rfl⟩ : ∃ k, rounds = k + 1 := ⟨rounds - 1, by simp at hrounds; omega⟩
      cases hcur
      rw [travelDeleteFrom, if_pos rfl, sweep]
      rw [List.append_nil] at hchain
      exact Simulates.pure_pure ⟨VisitedPart.nil, Swept.none hchain⟩
  | cons a rest ih =>
      rw [List.length_cons] at hrounds
      obtain ⟨rounds, rfl⟩ : ∃ k, rounds = k + 1 := ⟨rounds - 1, by omega⟩
      cases hcur
      rw [travelDeleteFrom, if_neg hchain.cursor.1, sweep]
      apply (op.onHeap_simulates hchain a).bind
      rintro flag _ m₁ ⟨rfl, hchain₁, hlive₁⟩
      -- the link is read before the node may go
      obtain ⟨_, next, hnext, hhead⟩ := hchain₁.cursor
      rw [run_bind (readNext_ok (hchain₁.live a (by simp)) hnext)]
      apply (deleteMatch_simulates cmp nodeOp hchain₁).bind
      rintro _ diff m₂ ⟨hchain₂, hlive₂⟩
      by_cases hbreak : flag = llistTravelBreak
      · rw [if_pos hbreak, if_pos hbreak]
        exact Simulates.pure_pure ⟨.last diff hbreak, .single hlive₁ hlive₂ hchain₂⟩
      · rw [if_neg hbreak, if_neg hbreak]
        apply (ih hchain₂ hhead (Nat.lt_of_succ_lt_succ hrounds)).pure_right
        rintro _ visits m' ⟨hvisited, hswept⟩
        exact ⟨.cons diff hbreak hvisited, .cons hlive₁ hlive₂ hswept⟩

theorem checkNode_some (check : LlistNodeCheck α σ) (cur : Addr) :
    checkNode (some check) cur = deleteMatch check none cur := rfl

/-- `llist_check` sweeps with no `op` and no `node_op`. -/
theorem checkFrom_simulates (check : Callback α σ Int) {done rest : List Addr} {cur : Addr}
    {rounds : Nat} {n : Int} (hchain : m.Chain ptr size (done ++ rest))
    (hcur : (rest ++ [ptr]).head? = some cur) (hrounds : rest.length < rounds)
    (hcount : n + rest.length ≤ intMax) :
    Simulates Mem.payloads
      (fun r visits m' => r = n + rest.length ∧ Swept m ptr size done rest visits m')
      (checkFrom (some check.onHeap) ptr rounds cur n m)
      (sweep (.constant 0) check none rest m.payloads) := by
  induction rest generalizing m done cur rounds n with
  | nil =>
      obtain ⟨rounds, rfl⟩ : ∃ k, rounds = k + 1 := ⟨rounds - 1, by simp at hrounds; omega⟩
      cases hcur
      rw [checkFrom, if_pos rfl, sweep]
      rw [List.append_nil] at hchain
      exact Simulates.pure_pure ⟨by simp, Swept.none hchain⟩
  | cons a rest ih =>
      rw [List.length_cons] at hrounds hcount
      push_cast at hcount
      obtain ⟨rounds, rfl⟩ : ∃ k, rounds = k + 1 := ⟨rounds - 1, by omega⟩
      cases hcur
      obtain ⟨hne, next, hnext, hhead⟩ := hchain.cursor
      have hidle : (Callback.constant 0 : Callback α σ Int).run a = pure 0 := rfl
      have hgoes : ¬(0 : Int) = llistTravelBreak := by decide
      rw [checkFrom, if_neg hne, run_bind (readNext_ok (hchain.live a (by simp)) hnext),
        checkNode_some, sweep, hidle, pure_bind]
      apply (deleteMatch_simulates check none hchain).bind
      rintro _ diff m₁ ⟨hchain₁, hlive₁⟩
      rw [run_bind (incr_ok (by omega)), if_neg hgoes]
      apply (ih hchain₁ hhead (Nat.lt_of_succ_lt_succ hrounds) (by omega)).pure_right
      rintro r visits m' ⟨rfl, hswept⟩
      refine ⟨?_, .cons rfl hlive₁ hswept⟩
      rw [List.length_cons]
      push_cast
      omega

/-- The list handed to the loops. -/
theorem llistTravelDelete_simulates {nodes : List (Addr × α)} (hlist : m.IsList ptr size nodes)
    (op cmp : Callback α σ Int) (nodeOp : Option (Callback α σ Unit)) :
    Simulates Mem.payloads
      (fun _ visits m' => VisitedPart (nodes.map Prod.fst) visits ∧
        Swept m ptr size [] (nodes.map Prod.fst) visits m')
      (llistTravelDelete (some ptr) op.onHeap cmp.onHeap (nodeOp.map Callback.onHeap) m)
      (sweep op cmp nodeOp (nodes.map Prod.fst) m.payloads) := by
  obtain ⟨cur, hcur⟩ := hlist.circular.forth.exists_next
  rw [llistTravelDelete, run_bind loopBound_ok, run_bind (readNext_ok hlist.head_live hcur)]
  apply travelDeleteFrom_simulates op cmp nodeOp
  · exact hlist.chain
  · exact hlist.circular.next_head.symm.trans hcur
  · rw [List.length_map]
    exact hlist.length_lt_card

theorem llistCheck_simulates {nodes : List (Addr × α)} (hlist : m.IsList ptr size nodes)
    (check : Callback α σ Int) (hcount : (nodes.length : Int) ≤ intMax) :
    Simulates Mem.payloads
      (fun r visits m' => r = (nodes.length : Int) ∧
        Swept m ptr size [] (nodes.map Prod.fst) visits m')
      (llistCheck (some ptr) (some check.onHeap) m)
      (sweep (.constant 0) check none (nodes.map Prod.fst) m.payloads) := by
  obtain ⟨cur, hcur⟩ := hlist.circular.forth.exists_next
  rw [llistCheck, run_bind loopBound_ok, run_bind (readNext_ok hlist.head_live hcur)]
  have hlength : ((nodes.map Prod.fst).length : Int) = nodes.length := by rw [List.length_map]
  have hchain : m.Chain ptr size ([] ++ nodes.map Prod.fst) := hlist.chain
  refine (checkFrom_simulates check hchain (hlist.circular.next_head.symm.trans hcur) ?_
    (by omega)).mono ?_
  · rw [List.length_map]
    exact hlist.length_lt_card
  · rintro r visits m' ⟨rfl, hswept⟩
    exact ⟨by omega, hswept⟩

end Loops

/-! ### A sweep with pure callbacks -/

section Pure

variable {op cmp : Callback α σ Int} {nodeOp : Option (Callback α σ Unit)} {f : α → Int}
  {err : Fault → Prop} {m : Mem α σ} {s : Payloads α σ} {ptr a : Addr} {x : α} {size : Int}
  {nodes : List (Addr × α)}

theorem Callback.constant_idle : (constant 0 : Callback α σ Int).Idle :=
  fun _ _ _ => ⟨0, rfl, by decide⟩

theorem Callback.compare_computes (f : α → Int) : (compare f : Callback α σ Int).Computes f := by
  intro a s x hx
  rw [compare]
  dsimp only
  rw [hx]

theorem Callback.Computes.zeroWhere (hcmp : cmp.Computes f) : cmp.ZeroWhere f :=
  fun a s x hx => ⟨f x, hcmp a s x hx, Iff.rfl⟩

theorem releasePayload_meets (hnodeOp : ∀ g ∈ nodeOp, g.HandedOnly err)
    (ha : (s.payload a).isSome = true) :
    Meets (fun result => ∀ b, b ≠ a → result.2.payload b = s.payload b) err
      (releasePayload nodeOp a s) := by
  have hhand : Meets (fun result => ∀ b, b ≠ a → result.2.payload b = s.payload b) err
      (handPayload nodeOp a s) := by
    cases nodeOp with
    | none => exact fun _ _ => rfl
    | some g => exact hnodeOp g rfl a s ha
  apply hhand.run_bind
  rintro _ s₁ hothers b hb
  change Function.update s₁.payload a none b = s.payload b
  rw [Function.update_of_ne hb, hothers b hb]

/-- A visit with a pure `cmp` drops a payload where that is 0, and touches no other. -/
theorem matchPayload_meets (hcmp : cmp.ZeroWhere f) (hnodeOp : ∀ g ∈ nodeOp, g.HandedOnly err)
    (hx : s.payload a = some x) :
    Meets (fun result => (result.1 = 0 ↔ f x = 0) ∧
      ∀ b, b ≠ a ∨ f x ≠ 0 → result.2.payload b = s.payload b) err
      (matchPayload cmp nodeOp a s) := by
  obtain ⟨diff, hrun, hzero⟩ := hcmp a s x hx
  have hdiff : Meets (fun result => result = (diff, s)) err (cmp.run a s) := by
    rw [hrun]
    rfl
  apply hdiff.run_bind
  rintro _ _ ⟨⟩
  by_cases h : diff = 0
  · rw [if_pos h]
    apply (releasePayload_meets hnodeOp (by rw [hx]; rfl)).run_bind
    rintro _ s₁ hothers
    refine ⟨hzero, fun b hb => hothers b (hb.resolve_right fun hne => hne (hzero.mp h))⟩
  · rw [if_neg h]
    exact ⟨hzero, fun _ _ => rfl⟩

/-- A sweep that changes no payload but those it drops, and never breaks, is a filter. -/
theorem sweep_meets (hop : op.Idle) (hcmp : cmp.ZeroWhere f)
    (hnodeOp : ∀ g ∈ nodeOp, g.HandedOnly err) (hnodup : (nodes.map Prod.fst).Nodup)
    (hdata : ∀ node ∈ nodes, s.payload node.1 = some node.2) :
    Meets (fun result =>
      survivors (nodes.map Prod.fst) result.1 = (nodes.filter (misses f)).map Prod.fst ∧
      ∀ b, (∀ node ∈ nodes, hits f node → node.1 ≠ b) → result.2.payload b = s.payload b) err
      (sweep op cmp nodeOp (nodes.map Prod.fst) s) := by
  induction nodes generalizing s with
  | nil => exact ⟨rfl, fun _ _ => rfl⟩
  | cons node rest ih =>
      obtain ⟨a, x⟩ := node
      have hx : s.payload a = some x := hdata (a, x) (by simp)
      rw [List.map_cons, List.nodup_cons] at hnodup
      obtain ⟨flag, hflag, hgoes⟩ := hop a s (by rw [hx]; rfl)
      have hfirst : Meets (fun result => result = (flag, s)) err (op.run a s) := by
        rw [hflag]
        rfl
      rw [List.map_cons, sweep]
      apply hfirst.run_bind
      rintro _ _ ⟨⟩
      apply (matchPayload_meets hcmp hnodeOp hx).run_bind
      rintro diff s₁ ⟨hzero, hothers⟩
      have hrest : ∀ node ∈ rest, s₁.payload node.1 = some node.2 := by
        intro node hmem
        have haddr : node.1 ∈ rest.map Prod.fst := List.mem_map_of_mem hmem
        have hne : node.1 ≠ a := fun h => hnodup.1 (h ▸ haddr)
        rw [hothers node.1 (Or.inl hne), hdata node (List.mem_cons_of_mem _ hmem)]
      rw [if_neg hgoes]
      apply (ih hnodup.2 hrest).run_bind
      rintro visits s' ⟨hkept, hsame⟩
      refine ⟨?_, fun b hb => ?_⟩
      · rw [survivors_cons, hkept]
        by_cases hf : f x = 0
        · rw [if_pos (hzero.mpr hf), List.filter_cons_of_neg (by simp [misses, hits, hf])]
          rfl
        · rw [if_neg (fun h => hf (hzero.mp h)), List.filter_cons_of_pos (by simp [misses, hits, hf])]
          rfl
      · rw [hsame b fun node hmem => hb node (List.mem_cons_of_mem _ hmem)]
        apply hothers b
        by_cases hf : f x = 0
        · exact Or.inl (hb (a, x) (by simp) (by simp [hits, hf])).symm
        · exact Or.inr hf

/-- What is left of a list by a sweep that is a filter. -/
theorem Swept.isList {visits : List Visit} {m' : Mem α σ} (hlist : m.IsList ptr size nodes)
    (hswept : Swept m ptr size [] (nodes.map Prod.fst) visits m')
    (hkept : survivors (nodes.map Prod.fst) visits = (nodes.filter (misses f)).map Prod.fst)
    (hsame : ∀ b, (∀ node ∈ nodes, hits f node → node.1 ≠ b) →
      m'.payloads.payload b = m.payloads.payload b) :
    m'.IsList ptr size (nodes.filter (misses f)) := by
  have hchain := hswept.chain
  rw [List.nil_append, hkept] at hchain
  refine hchain.isList fun node hmem => ?_
  obtain ⟨hnode, hmiss⟩ := List.mem_filter.mp hmem
  rw [hsame node.1, hlist.payload hnode]
  intro other hother hhit h
  have hsame := List.inj_on_of_nodup_map hlist.nodup hother hnode h
  rw [hsame] at hhit
  simp [misses, hhit] at hmiss

/-! ### The three ways of removal -/

theorem Callback.Computes.onHeap (hcmp : cmp.Computes f) (hlist : m.IsList ptr size nodes) :
    ∀ node ∈ nodes, cmp.onHeap node.1 m = .ok (f node.2, m) := by
  intro node hmem
  rw [Callback.onHeap, hcmp node.1 m.payloads node.2 (hlist.payload hmem)]
  dsimp only
  rw [m.withPayloads_payloads]

theorem simulates_sweep_meets (hlist : m.IsList ptr size nodes) (hop : op.Idle)
    (hcmp : cmp.ZeroWhere f) (hnodeOp : ∀ g ∈ nodeOp, g.HandedOnly err) {x : Except Fault (β × Mem α σ)}
    {ok : β → Prop}
    (hx : Simulates Mem.payloads
      (fun b visits m' => ok b ∧ Swept m ptr size [] (nodes.map Prod.fst) visits m') x
      (sweep op cmp nodeOp (nodes.map Prod.fst) m.payloads)) :
    Meets (fun result => ok result.1 ∧ result.2.IsList ptr size (nodes.filter (misses f))) err x := by
  have hfilter := sweep_meets hop hcmp hnodeOp hlist.nodup fun node hmem => hlist.payload hmem
  refine (hx.meets hfilter).mono ?_
  rintro ⟨b, m'⟩ ⟨visits, ⟨hok, hswept⟩, hkept, hsame⟩
  exact ⟨hok, hswept.isList hlist hkept hsame⟩

/-- `llist_delet` takes the first match out, or there is none. -/
theorem llistDelet_removes (hcmp : cmp.Computes f) (hnodeOp : ∀ g ∈ nodeOp, g.HandedOnly err)
    (hlist : m.IsList ptr size nodes) :
    Meets (fun result =>
      (result.1 = -1 ∧ nodes.find? (hits f) = none ∧ result.2.IsList ptr size nodes) ∨
      ∃ us node vs, result.1 = 0 ∧ hits f node ∧ nodes = us ++ node :: vs ∧
        result.2.IsList ptr size (us ++ vs)) err
      (llistDelet ptr cmp.onHeap (nodeOp.map Callback.onHeap) m) := by
  have hfound := hcmp.onHeap hlist
  cases hfind : nodes.find? (hits f) with
  | none =>
      rw [llistDelet_none hlist hfound hfind]
      exact Or.inl ⟨rfl, rfl, hlist⟩
  | some node =>
      obtain ⟨us, vs, rfl, _⟩ := eraseP_of_find? hfind
      have hhit : hits f node := List.find?_some hfind
      have hne : node.1 ≠ ptr := hlist.cursor.1
      have hchain : m.Chain ptr size (us.map Prod.fst ++ node.1 :: vs.map Prod.fst) := by
        have h := hlist.chain
        rwa [List.map_append, List.map_cons] at h
      have hsome : (m.payloads.payload node.1).isSome = true := by
        rw [hlist.payload (by simp)]
        rfl
      have hbind : (do
          unlinkNode node.1
          callNodeOp (nodeOp.map Callback.onHeap) node.1
          freeBlock node.1
          return 0 : MemM α σ Int) = (do
          unlinkNode node.1
          callNodeOp (nodeOp.map Callback.onHeap) node.1
          freeBlock node.1 : MemM α σ Unit) >>= fun _ => pure 0 := by
        simp only [bind_assoc]
      rw [llistDelet_eq, run_bind (findNode_some hlist hfound hfind), if_neg hne, hbind]
      apply ((removeNode_simulates nodeOp hchain).meets
        (releasePayload_meets hnodeOp hsome)).run_bind
      rintro _ m' ⟨_, ⟨hchain', _⟩, hothers⟩
      refine Or.inr ⟨us, node, vs, rfl, hhit, rfl, ?_⟩
      rw [← List.map_append] at hchain'
      refine hchain'.isList fun other hmem => ?_
      have hother : other ∈ us ++ node :: vs := mem_with hmem node
      have hcirc := hlist.circular
      rw [List.map_append, List.map_cons] at hcirc
      have hne' : other.1 ≠ node.1 := by
        have haddr : other.1 ∈ (us ++ vs).map Prod.fst := List.mem_map_of_mem hmem
        rw [List.map_append] at haddr
        exact fun h => hcirc.notMem (h ▸ List.mem_cons_of_mem ptr haddr)
      rw [hothers other.1 hne', hlist.payload hother]

theorem deletUntilNone_meets (hcmp : cmp.Computes f) (hnodeOp : ∀ g ∈ nodeOp, g.HandedOnly err)
    {rounds : Nat} (hlist : m.IsList ptr size nodes) (hrounds : nodes.length < rounds) :
    Meets (fun result => result.2.IsList ptr size (nodes.filter (misses f))) err
      (deletUntilNone ptr cmp.onHeap (nodeOp.map Callback.onHeap) rounds m) := by
  induction rounds generalizing nodes m with
  | zero => exact absurd hrounds (Nat.not_lt_zero _)
  | succ rounds ih =>
      apply (llistDelet_removes hcmp hnodeOp hlist).run_bind
      rintro r m₁ (⟨rfl, hnone, hlist₁⟩ | ⟨us, node, vs, rfl, hhit, rfl, hlist₁⟩)
      · rw [if_pos rfl]
        have hall : nodes.filter (misses f) = nodes := by
          rw [List.filter_eq_self]
          intro node hmem
          simpa [misses] using List.find?_eq_none.mp hnone node hmem
        rw [hall]
        exact hlist₁
      · rw [if_neg (by decide)]
        have hmiss : ¬misses f node := by simp [misses, hhit]
        have hfilter : (us ++ node :: vs).filter (misses f) = (us ++ vs).filter (misses f) := by
          rw [List.filter_append, List.filter_cons_of_neg hmiss, List.filter_append]
        rw [hfilter]
        apply ih hlist₁
        rw [List.length_append, List.length_cons] at hrounds
        rw [List.length_append]
        omega

end Pure

/-- **Bulk deletion.** `llist_travel_delete` makes the calls of the sweep over the nodes and fails only
where one of them fails; it leaves the survivors linked both ways and frees the others. With an `op`
that does nothing and a pure `cmp` it leaves what repeated `llist_delet` and `llist_check` leave. -/
theorem llistTravelDelete_exact {m : Mem α σ} {ptr : Addr} {size : Int} {nodes : List (Addr × α)}
    (hlist : m.IsList ptr size nodes) (op cmp : Callback α σ Int)
    (nodeOp : Option (Callback α σ Unit)) :
    Simulates Mem.payloads
      (fun _ visits m' => VisitedPart (nodes.map Prod.fst) visits ∧
        Swept m ptr size [] (nodes.map Prod.fst) visits m')
      (llistTravelDelete (some ptr) op.onHeap cmp.onHeap (nodeOp.map Callback.onHeap) m)
      (sweep op cmp nodeOp (nodes.map Prod.fst) m.payloads) ∧
    ∀ (f : α → Int) (err : Fault → Prop) (check : Callback α σ Int)
      (nodeOp' : Option (Callback α σ Unit)), op.Idle → cmp.Computes f → check.ZeroWhere f →
      (∀ g ∈ nodeOp, g.HandedOnly err) → (∀ g ∈ nodeOp', g.HandedOnly err) →
      Meets (fun result => result.2.IsList ptr size (nodes.filter (misses f))) err
        (llistTravelDelete (some ptr) op.onHeap cmp.onHeap (nodeOp.map Callback.onHeap) m) ∧
      Meets (fun result => result.2.IsList ptr size (nodes.filter (misses f))) err
        (deletUntilNone ptr cmp.onHeap (nodeOp'.map Callback.onHeap) (nodes.length + 1) m) ∧
      ((nodes.length : Int) ≤ intMax → Meets (fun result => result.1 = (nodes.length : Int) ∧
        result.2.IsList ptr size (nodes.filter (misses f))) (fun _ => False)
        (llistCheck (some ptr) (some check.onHeap) m)) := by
  have htravel := llistTravelDelete_simulates hlist op cmp nodeOp
  refine ⟨htravel, fun f err check nodeOp' hop hcmp hcheck hnodeOp hnodeOp' => ⟨?_, ?_, ?_⟩⟩
  · have hswept : Simulates Mem.payloads
        (fun _ visits m' => True ∧ Swept m ptr size [] (nodes.map Prod.fst) visits m')
        (llistTravelDelete (some ptr) op.onHeap cmp.onHeap (nodeOp.map Callback.onHeap) m)
        (sweep op cmp nodeOp (nodes.map Prod.fst) m.payloads) :=
      htravel.mono fun _ _ _ h => ⟨trivial, h.2⟩
    exact (simulates_sweep_meets hlist hop hcmp.zeroWhere hnodeOp hswept).mono fun _ h => h.2
  · exact deletUntilNone_meets hcmp hnodeOp' hlist (Nat.lt_succ_self _)
  · intro hcount
    exact simulates_sweep_meets hlist Callback.constant_idle hcheck (by simp)
      (llistCheck_simulates hlist check hcount)

/-- Of two elements the second is deleted. -/
theorem llistTravelDelete_exact_pair : ∃ (m : Mem Nat Unit) (a b : Addr),
    m.IsList 1 4 [(a, 7), (b, 8)] ∧
    let cmp : Callback Nat Unit Int := .compare fun x => x - 8
    (Simulates Mem.payloads
      (fun _ visits m' => VisitedPart [a, b] visits ∧ Swept m 1 4 [] [a, b] visits m')
      (llistTravelDelete (some 1) (Callback.constant 0).onHeap cmp.onHeap none m)
      (sweep (.constant 0) cmp none [a, b] m.payloads)) ∧
    Meets (fun result => result.2.IsList 1 4 [(a, 7)]) (fun _ => False)
      (llistTravelDelete (some 1) (Callback.constant 0).onHeap cmp.onHeap none m) ∧
    Meets (fun result => result.2.IsList 1 4 [(a, 7)]) (fun _ => False)
      (deletUntilNone 1 cmp.onHeap none 3 m) ∧
    Meets (fun result => result.1 = 2 ∧ result.2.IsList 1 4 [(a, 7)]) (fun _ => False)
      (llistCheck (some 1) (some cmp.onHeap) m) := by
  obtain ⟨m₁, hmade⟩ : ∃ m : Mem Nat Unit,
      llistCreat nextAddress 4 (.empty ()) = .ok (some 1, m) := ⟨_, rfl⟩
  obtain ⟨a, ha⟩ := Mem.exists_answer nextAddress_total (show 0 ≤ (16 + 4 : Int) by decide) m₁
  obtain ⟨m₂, _, hinserted₂⟩ := llistInsert_backward (llistCreat_some hmade).1 (by decide) 7 ha
  obtain ⟨b, hb⟩ := Mem.exists_answer nextAddress_total (show 0 ≤ (16 + 4 : Int) by decide) m₂
  obtain ⟨m, _, hinserted⟩ := llistInsert_backward hinserted₂.isList (by decide) 8 hb
  have hlist : m.IsList 1 4 [(a, 7), (b, 8)] := hinserted.isList
  obtain ⟨hswept, hpure⟩ :=
    llistTravelDelete_exact hlist (.constant 0) (.compare fun x => (x : Int) - 8) none
  have hcomputes := Callback.compare_computes (α := Nat) (σ := Unit) fun x => (x : Int) - 8
  obtain ⟨htravel, hdelet, hcheck⟩ := hpure _ (fun _ => False) _ none Callback.constant_idle hcomputes
    hcomputes.zeroWhere (by simp) (by simp)
  exact ⟨m, a, b, hlist, hswept, htravel, hdelet, hcheck (show (2 : Int) ≤ intMax by decide)⟩

/-- A `node_op` that writes to all payloads. -/
def Callback.spoil (x : α) : Callback α σ Unit where
  run _ s := .ok ((), { s with payload := fun b => (s.payload b).map fun _ => x })
  keeps _ _ := fun _ => Option.isSome_map

/-- How many of the two elements 1 and 0 are left after `x` is done with the list. -/
def leftOfTwo (x : MemM Int Unit Unit) : Except Fault Int := do
  let (left, _) ← (do
    discard (llistCreat nextAddress 4)
    discard (llistInsert nextAddress 1 1 llistBackward)
    discard (llistInsert nextAddress 1 0 llistBackward)
    x
    llistGetnum 1 : MemM Int Unit Int) (.empty ())
  return left

/-- A `node_op` that makes 0 of the element that has been visited deletes it in one way and not in the
other; and of 2^31 elements `llist_check` counts more than its `int` can. -/
theorem bulkDeletion_differs :
    (leftOfTwo (llistTravelDelete (some 1) (Callback.constant 0).onHeap (Callback.compare id).onHeap
        (some (Callback.spoil 0).onHeap)) = .ok 1 ∧
      leftOfTwo (deletUntilNone 1 (Callback.compare id).onHeap
        (some (Callback.spoil 0).onHeap) 3) = .ok 0) ∧
    ∃ (m m' : Mem Unit Unit) (nodes : List (Addr × Unit)),
      llistCreat nextAddress 0 (.empty ()) = .ok (some 1, m) ∧
      (∃ results, Calls.runCalls (LlistCall.exec nextAddress 1) m
        (List.replicate 2147483648 (.insert () llistForward)) = .ok (results, m')) ∧
      m'.IsList 1 0 nodes ∧ nodes.length = 2147483648 ∧
      llistCheck (some 1) (some (Callback.constant 1).onHeap) m' = .error .signedOverflow := by
  refine ⟨⟨by decide +kernel, by decide +kernel⟩, ?_⟩
  obtain ⟨m, m', results, t, hmade, hrun, hholds, hlength⟩ := exists_longList
  refine ⟨m, m', t.1, hmade, ⟨results, hrun⟩, hholds.isList, hlength, ?_⟩
  have hconstant : ∀ a, (Callback.constant 1 : Callback Unit Unit Int).onHeap a = pure 1 := by
    intro a
    funext m
    change Except.ok (1, m.withPayloads m.payloads) = _
    rw [m.withPayloads_payloads]
    rfl
  have hkeeps : ∀ cur, checkNode (some (Callback.constant 1 : Callback Unit Unit Int).onHeap) cur
      = pure () := by
    intro cur
    rw [checkNode, hconstant cur, pure_bind, if_neg (by decide)]
  rw [llistCheck_keeping hkeeps, llistGetnum_eq hholds.isList, if_neg (by rw [hlength]; decide)]

end Gittest
