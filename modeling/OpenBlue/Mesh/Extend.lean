import OpenBlue.Common.Round
import OpenBlue.Common.Run
import OpenBlue.Mesh.Model.Extend
/-!
# Mesh — the lists of models that extend one another

A model that is in no list yet is a round of its own, so every model has a
round, and merging two lists exchanges two successors (`exchanged_mergeLists`).
The loop that looks for the other model stops before the last one
(`listContains_eq`): a model whose successor is the extending one is not found
in its list, and the merge cuts the extending model out of it. All else keeps
the rounds the classes of the extension relation.
-/

namespace OpenBlue

namespace CompData

open List Fintype

open Relation (EqvGen)

variable {M : Type} {next : M → Option M} {a b m : M} {l : List M} {r : M → M → Prop}

/-- The model a list comes to next; a model that is in none comes to itself. -/
def succOf (next : M → Option M) (m : M) : M := (next m).getD m

theorem next_of_succOf (h : succOf next a = b) (hne : a ≠ b) : next a = some b := by
  cases hnext : next a with
  | none =>
    rw [succOf, hnext] at h
    exact absurd h hne
  | some c =>
    rw [succOf, hnext] at h
    exact congrArg some h

theorem succOf_of_next (h : next a = some b) : succOf next a = b := by
  rw [succOf, h]
  rfl

/-! ## What is visited, and what extends -/

/-- What a walk does with the models it comes to. -/
def visitAll {σ : Type} (cb : M → σ → Walk × σ) : List M → σ → σ
  | [], s => s
  | m :: ms, s =>
    match cb m s with
    | (.stop, s) => s
    | (.continue, s) => visitAll cb ms s

/-- **A search** finds an entry where a model of the round on the same element
has one. -/
theorem visitAll_findVisitor (info : Models M) (get : M → Option ℕ) (start : M) (l : List M) :
    (visitAll (findVisitor info get) l ⟨none, start⟩).entry.isSome = true ↔
      ∃ x ∈ l, info.elemIdx x = info.elemIdx start ∧ (get x).isSome = true := by
  induction l with
  | nil => simp [visitAll]
  | cons x l ih =>
    rw [visitAll, findVisitor]
    by_cases helem : info.elemIdx x = info.elemIdx start
    · rw [if_neg (not_not_intro helem)]
      cases hget : get x with
      | none => simp only [ih, mem_cons, exists_eq_or_imp, hget]; simp
      | some i => simp [helem, hget]
    · rw [if_pos helem]
      simp only [ih, mem_cons, exists_eq_or_imp, helem]
      simp

/-- The extension relation that some calls have made. -/
def extendedBy (calls : List (RelCall M)) (x y : M) : Prop := RelCall.extend x y ∈ calls

theorem extendedBy_append (calls : List (RelCall M)) (x y : M) :
    extendedBy (calls ++ [RelCall.extend a b]) x y ↔ extendedBy calls x y ∨ (x = a ∧ y = b) := by
  simp [extendedBy]

variable [DecidableEq M]

/-! ## The loops -/

/-- **The loop looks at all but the last** of what it goes through, up to `a`
again. -/
theorem listContains_eq (hab : a ≠ b) {fuel : ℕ} {x : M}
    (hchain : List.IsChain (fun y z => succOf next y = z) ((x :: l) ++ [a]))
    (hnodup : (x :: l).Nodup) (ha : a ∉ l) (hfuel : l.length < fuel) :
    listContains next a b fuel (some x) = decide (b ∈ (x :: l).dropLast) := by
  induction l generalizing x fuel with
  | nil =>
    obtain ⟨fuel, rfl⟩ := Nat.exists_eq_add_of_lt hfuel
    rw [cons_append, nil_append, isChain_cons_cons] at hchain
    have hlast : decide (b ∈ [x].dropLast) = false := by simp
    rw [hlast, show [].length + fuel + 1 = fuel + 1 by simp, listContains]
    split
    · rfl
    next hnext =>
      -- The model is in no list: it is `a`, and nothing comes after it.
      have hxa : x = a := by
        by_contra hne
        exact hnext (next_of_succOf hchain.1 hne)
      have hnone : next x = none := by
        cases hx : next x with
        | none => rfl
        | some c =>
          rw [hx] at hnext
          exact absurd (congrArg some ((succOf_of_next hx).symm.trans hchain.1)) hnext
      rw [if_neg (hxa ▸ hab), hnone]
      cases fuel <;> rfl
  | cons y l ih =>
    obtain ⟨fuel, rfl⟩ : ∃ n, fuel = n + 1 := ⟨fuel - 1, by omega⟩
    rw [cons_append, cons_append, isChain_cons_cons] at hchain
    obtain ⟨hxl, hnodup'⟩ := nodup_cons.1 hnodup
    have hnext : next x = some y :=
      next_of_succOf hchain.1 fun heq => hxl (heq ▸ mem_cons_self)
    have hya : y ≠ a := fun heq => ha (heq ▸ mem_cons_self)
    rw [listContains, hnext, if_neg fun heq => hya (Option.some.inj heq)]
    split
    next hxb =>
      rw [hxb, dropLast_cons_cons]
      simp
    next hxb =>
      rw [ih hchain.2 hnodup' (fun hin => ha (mem_cons_of_mem y hin))
        (by rw [length_cons] at hfuel; omega), dropLast_cons_cons]
      simp [mem_cons, Ne.symm hxb]

theorem walkLoop_eq {σ : Type} (cb : M → σ → Walk × σ) {fuel : ℕ} {x : M} (s : σ)
    (hchain : List.IsChain (fun y z => succOf next y = z) ((x :: l) ++ [m]))
    (hnodup : (x :: l).Nodup) (hm : m ∉ x :: l) (hfuel : l.length + 1 < fuel) :
    walkLoop next m cb fuel (some x) s = some (visitAll cb (x :: l) s) := by
  induction l generalizing x fuel s with
  | nil =>
    obtain ⟨fuel, rfl⟩ : ∃ n, fuel = n + 2 := ⟨fuel - 2, by simp at hfuel; omega⟩
    rw [cons_append, nil_append, isChain_cons_cons] at hchain
    have hxm : x ≠ m := fun heq => hm (heq ▸ mem_cons_self)
    rw [walkLoop, if_neg hxm, next_of_succOf hchain.1 hxm, visitAll]
    rcases cb x s with ⟨_ | _, s⟩
    · rfl
    · dsimp only
      rw [walkLoop, if_pos rfl, visitAll]
  | cons y l ih =>
    obtain ⟨fuel, rfl⟩ : ∃ n, fuel = n + 1 := ⟨fuel - 1, by omega⟩
    rw [cons_append, cons_append, isChain_cons_cons] at hchain
    obtain ⟨hxl, hnodup'⟩ := nodup_cons.1 hnodup
    have hxm : x ≠ m := fun heq => hm (heq ▸ mem_cons_self)
    have hnext : next x = some y :=
      next_of_succOf hchain.1 fun heq => hxl (heq ▸ mem_cons_self)
    rw [walkLoop, if_neg hxm, hnext, visitAll]
    have hrest : l.length + 1 < fuel := by
      rw [length_cons] at hfuel
      omega
    rcases cb x s with ⟨_ | _, s⟩
    · rfl
    · exact ih s hchain.2 hnodup' (fun hin => hm (mem_cons_of_mem x hin)) hrest

theorem exchanged_mergeLists (hab : a ≠ b) :
    Exchanged (succOf next) (succOf (mergeLists a b next)) a b where
  left := by simp [succOf, mergeLists]
  right := by simp [succOf, mergeLists, Ne.symm hab]
  other x hxa hxb := by simp [succOf, mergeLists, hxa, hxb]

variable [Fintype M]

/-- **A walk ends**, and goes through the round once, from its start. -/
theorem extensionsWalk_eq {σ : Type} (cb : M → σ → Walk × σ) (s : σ)
    (h : Round (succOf next) m l) : extensionsWalk next m cb s = some (visitAll cb (m :: l) s) := by
  have hlen : (m :: l).length ≤ card M := h.nodup.length_le_card
  obtain ⟨hml, hnodup⟩ := nodup_cons.1 h.nodup
  have hchain := h.chain
  rw [extensionsWalk, visitAll]
  rcases cb m s with ⟨_ | _, s⟩
  · rfl
  dsimp only
  cases l with
  | nil =>
    rw [cons_append, nil_append, isChain_cons_cons] at hchain
    cases hnext : next m with
    | none => rfl
    | some it =>
      obtain ⟨fuel, hfuel⟩ : ∃ n, card M = n + 1 :=
        ⟨card M - 1, by simp at hlen; omega⟩
      have hit : it = m := (succOf_of_next hnext).symm.trans hchain.1
      rw [hfuel]
      dsimp only
      rw [walkLoop, if_pos hit, visitAll]
  | cons y l =>
    rw [cons_append, cons_append, isChain_cons_cons] at hchain
    have hnext : next m = some y :=
      next_of_succOf hchain.1 fun heq => hml (heq ▸ mem_cons_self)
    rw [hnext]
    exact walkLoop_eq cb s hchain.2 hnodup hml hlen

/-! ## A call -/

/-- **A call, on rounds that are classes.** They stay so with the new pair,
unless the other model is the one before the extending one. -/
theorem roundsAre_extendNext_iff {r' : M → M → Prop} (h : RoundsAre (succOf next) r)
    (hr : ∀ x y, r' x y ↔ r x y ∨ (x = a ∧ y = b)) :
    RoundsAre (succOf (extendNext a b next)) r' ↔ ¬ (a ≠ b ∧ next b = some a) := by
  obtain ⟨la, ha, hmem⟩ := h a
  by_cases hab : a = b
  · rw [extendNext, if_pos hab]
    refine iff_of_true (h.insert (hab ▸ EqvGen.refl a) hr) fun hbad => hbad.1 hab
  have hlen : (a :: la).length ≤ card M := ha.nodup.length_le_card
  have hcontains : listContains next a b (card M) (some a) =
      decide (b ∈ (a :: la).dropLast) :=
    listContains_eq hab ha.chain ha.nodup (nodup_cons.1 ha.nodup).1
      (by rw [length_cons] at hlen; omega)
  rw [extendNext, if_neg hab, hcontains]
  by_cases hfound : b ∈ (a :: la).dropLast
  · rw [if_pos (decide_eq_true hfound)]
    refine iff_of_true (h.insert ((hmem b).1 (dropLast_subset _ hfound)) hr) ?_
    exact fun hbad => ha.succ_ne hfound (succOf_of_next hbad.2)
  rw [if_neg (by simpa using hfound)]
  have hex : Exchanged (succOf next) (succOf (mergeLists a b next)) a b := exchanged_mergeLists hab
  by_cases hb : b ∈ a :: la
  · -- The other model is the last of the list, which the loop leaves out.
    obtain ⟨l, hl⟩ : ∃ l, la = l ++ [b] := by
      rcases eq_nil_or_concat' la with rfl | ⟨l, c, rfl⟩
      · exact absurd (mem_singleton.1 hb).symm hab
      · have hdrop : (a :: (l ++ [c])).dropLast = a :: l := by
          rw [← cons_append, dropLast_concat]
        rw [hdrop] at hfound
        rw [← cons_append, mem_append, mem_singleton] at hb
        exact ⟨l, by rw [hb.resolve_left hfound]⟩
    rw [hl] at ha
    refine iff_of_false (fun hrounds => ?_)
      (not_not_intro ⟨hab, next_of_succOf ha.succ_last (Ne.symm hab)⟩)
    obtain ⟨l', hl', hmem'⟩ := hrounds a
    have hin := (hmem' b).2 (.rel a b ((hr a b).2 (.inr ⟨rfl, rfl⟩)))
    rw [ha.cut hex hl', mem_singleton] at hin
    exact hab hin.symm
  · refine iff_of_true (h.join (fun hnew => hb ((hmem b).2 hnew)) hex hr) ?_
    rintro ⟨-, hnext⟩
    obtain ⟨lb, hlb, hmemb⟩ := h b
    have hclass := (hmemb a).1 (succOf_of_next hnext ▸ hlb.succ_mem)
    exact hb ((hmem b).2 (.symm _ _ hclass))

/-! ## Runs -/

/-- The links are the lists of the components of the extension relation: from
each model they go round its component once, so that a walk ends having come
to each model of it once, whatever the callback does, and a search finds the
entry of any model of the component on the same element. -/
structure ExtensionsOk (info : Models M) (next : M → Option M) (r : M → M → Prop) : Prop where
  rounds : RoundsAre (succOf next) r
  walk : ∀ m, ∃ l, (m :: l).Nodup ∧ (∀ y, y ∈ m :: l ↔ EqvGen r m y) ∧
    ∀ {σ : Type} (cb : M → σ → Walk × σ) (s : σ),
      extensionsWalk next m cb s = some (visitAll cb (m :: l) s)
  group : ∀ (groups : M → List UInt16) (m : M) (addr : UInt16),
    ∃ ctx, btMeshModelFindGroup info groups next m addr = some ctx ∧
      (ctx.entry.isSome = true ↔ ∃ x, EqvGen r m x ∧ info.elemIdx x = info.elemIdx m ∧
        (modelGroupGet groups addr x).isSome = true)
  uuid : ∀ {U : Type} [DecidableEq U] (groups : M → List UInt16) (uuids : M → List (Option U))
    (m : M) (uuid : Option U),
    ∃ ctx, btMeshModelFindUuid info groups uuids next m uuid = some ctx ∧
      (ctx.entry.isSome = true ↔ ∃ x, EqvGen r m x ∧ info.elemIdx x = info.elemIdx m ∧
        (modelUuidGet groups uuids uuid x).isSome = true)

theorem RoundsAre.find (info : Models M) (h : RoundsAre (succOf next) r) (get : M → Option ℕ)
    (m : M) : ∃ ctx, extensionsWalk next m (findVisitor info get) ⟨none, m⟩ = some ctx ∧
      (ctx.entry.isSome = true ↔ ∃ x, EqvGen r m x ∧ info.elemIdx x = info.elemIdx m ∧
        (get x).isSome = true) := by
  obtain ⟨l, hl, hmem⟩ := h m
  refine ⟨_, extensionsWalk_eq _ _ hl, ?_⟩
  rw [visitAll_findVisitor]
  simp only [hmem]

theorem extensionsOk_iff (info : Models M) :
    ExtensionsOk info next r ↔ RoundsAre (succOf next) r := by
  refine ⟨fun h => h.rounds, fun h => ⟨h, fun m => ?_, fun groups m addr => ?_,
    fun groups uuids m uuid => ?_⟩⟩
  · obtain ⟨l, hl, hmem⟩ := h m
    exact ⟨l, hl.nodup, hmem, fun cb s => extensionsWalk_eq cb s hl⟩
  · exact RoundsAre.find info h (modelGroupGet groups addr) m
  · exact RoundsAre.find info h (modelUuidGet groups uuids uuid) m

/-- The call does not extend the model that comes before it in its list. -/
def NotBefore (s : Extensions M) : RelCall M → Prop
  | .extend a b => ¬ (a ≠ b ∧ s.next b = some a)
  | .correspond _ _ => True

instance (s : Extensions M) : ∀ call, Decidable (NotBefore s call)
  | .extend a b => inferInstanceAs (Decidable (¬ (a ≠ b ∧ s.next b = some a)))
  | .correspond _ _ => instDecidableTrue

/-- **The lists are the components of the extension relation exactly while no
call extends the model before it.** Of every sequence of calls, on any models
in any order: the links are right after every one, if and only if no call
extends the model whose link leads to the extending one. -/
theorem extensionsOk_iff_along (info : Models M) (size : UInt8) (calls : List (RelCall M)) :
    (∀ calls', calls' <+: calls →
      ExtensionsOk info (run (relStep info) (extensionsInit M size) calls').next
        (extendedBy calls')) ↔
      Along (relStep info) NotBefore (extensionsInit M size) calls := by
  have hinit : RoundsAre (succOf (extensionsInit M size).next) (extendedBy ([] : List (RelCall M))) := by
    intro x
    refine ⟨[], ⟨List.isChain_cons_cons.2 ⟨rfl, List.isChain_singleton x⟩,
      List.nodup_singleton x⟩, fun y => ?_⟩
    rw [List.mem_singleton]
    constructor
    · rintro rfl
      exact .refl y
    · intro h
      have hid : Equivalence fun x y : M => x = y := eq_equivalence
      have hle : ∀ x y : M, extendedBy [] x y → x = y := fun x y h => absurd h List.not_mem_nil
      exact ((hid.eqvGen_iff).1 (EqvGen.mono hle _ _ h)).symm
  have hstep : ∀ (s : Extensions M) (call : RelCall M) (log : List (RelCall M)), True →
      RoundsAre (succOf s.next) (extendedBy log) →
      (RoundsAre (succOf (relStep info s call).next) (extendedBy (log ++ [call])) ↔
        NotBefore s call) := by
    intro s call log _ hrounds
    cases call with
    | extend a b => exact roundsAre_extendNext_iff hrounds (extendedBy_append log)
    | correspond a b =>
      refine iff_of_true ?_ trivial
      have hsame : extendedBy (log ++ [RelCall.correspond a b]) = extendedBy log := by
        funext x y
        simp [extendedBy]
      rw [hsame]
      exact hrounds
  have hprefix := log_prefix_iff_along (fun _ call => [call]) (fun _ => True)
    (fun (s : Extensions M) log => RoundsAre (succOf s.next) (extendedBy log))
    (fun _ _ _ => trivial) hstep
    trivial hinit calls
  simp only [List.nil_append, emitted_events] at hprefix
  rw [← hprefix]
  exact forall₂_congr fun calls' _ => extensionsOk_iff info

/-- SIG models of one element. -/
def sameElem (n : ℕ) : Models (Fin n) := ⟨fun _ => 0, fun m => UInt8.ofNat m.val, fun _ => 0⟩

/-- One model, that extends two others. -/
theorem extensionsOk_fan :
    ExtensionsOk (sameElem 3)
      (run (relStep (sameElem 3)) (extensionsInit (Fin 3) 10) [.extend 0 1, .extend 0 2]).next
      (extendedBy [.extend 0 1, .extend 0 2]) :=
  (extensionsOk_iff_along (sameElem 3) 10 [.extend 0 1, .extend 0 2]).2 (by decide) _
    (List.prefix_refl _)

/-- The links after the same pair is extended twice. -/
def extendedTwice : Fin 2 → Option (Fin 2) :=
  (run (relStep (sameElem 2)) (extensionsInit (Fin 2) 10) [.extend 0 1, .extend 0 1]).next

/-- **The same pair again.** The second call takes the list of the two apart:
a walk from the extending model does not come to the one it extends. -/
theorem not_extensionsOk_again :
    ¬ ExtensionsOk (sameElem 2) extendedTwice (extendedBy [.extend 0 1, .extend 0 1]) ∧
      extendedTwice 0 = some 0 ∧ extendedTwice 1 = some 1 ∧
      extensionsWalk extendedTwice 0 (fun m s => (.continue, s ++ [m])) [] = some [0] := by
  refine ⟨fun h => ?_, by decide, by decide, by decide⟩
  obtain ⟨l, hl, hmem⟩ := h.rounds 0
  have hin : (1 : Fin 2) ∈ (0 : Fin 2) :: l := (hmem 1).2 (.rel 0 1 (by simp [extendedBy]))
  rw [hl.eq_nil (by decide), List.mem_singleton] at hin
  exact absurd hin (by decide)

end CompData

end OpenBlue
