import WasmBindings.Proofs.ClassBody
import WasmBindings.Proofs.Distinct
import WasmBindings.Proofs.Overrides

namespace WasmBindings

namespace Table

variable {κ α : Type} [DecidableEq κ] {ks : List κ} {k : κ}

theorem get?_map_of_mem (h : k ∈ ks) (f : κ → α) :
    get? (ks.map fun j => (j, f j)) k = some (f k) := by
  induction ks with
  | nil => cases h
  | cons j ks ih =>
    rw [List.map_cons, get?_cons]
    by_cases hk : k = j
    · simp [hk]
    · simp [hk, ih ((List.mem_cons.1 h).resolve_left hk)]

theorem get?_map_of_not_mem (h : k ∉ ks) (f : κ → α) :
    get? (ks.map fun j => (j, f j)) k = none := by
  induction ks with
  | nil => rfl
  | cons j ks ih =>
    simp only [List.mem_cons, not_or] at h
    rw [List.map_cons, get?_cons]
    simp [h.1, ih h.2]

theorem insert_map_of_mem (h : k ∈ ks) (hks : ks.Nodup) (f : κ → α) (a : α) :
    insert (ks.map fun j => (j, f j)) k a = ks.map fun j => (j, if j = k then a else f j) := by
  induction ks with
  | nil => cases h
  | cons j ks ih =>
    obtain ⟨hj, hks⟩ := List.nodup_cons.1 hks
    rw [List.map_cons, insert]
    by_cases hk : k = j
    · subst hk
      have hrest : ks.map (fun i => (i, if i = k then a else f i)) = ks.map fun i => (i, f i) := by
        apply List.map_congr_left
        intro i hi
        rw [if_neg (ne_of_mem_of_not_mem hi hj)]
      simp [hrest]
    · simp [hk, Ne.symm hk, ih ((List.mem_cons.1 h).resolve_left hk) hks]

theorem insert_map_of_not_mem (h : k ∉ ks) (f : κ → α) (a : α) :
    insert (ks.map fun j => (j, f j)) k a = ks.map (fun j => (j, f j)) ++ [(k, a)] := by
  induction ks with
  | nil => rfl
  | cons j ks ih =>
    simp only [List.mem_cons, not_or] at h
    simp [insert, h.1, ih h.2]

end Table

theorem Tree.eq_of_hasKind {kind kind' : String} {v : Json} (h : hasKind kind v = true)
    (h' : hasKind kind' v = true) : kind = kind' := by
  rw [hasKind, Json.fieldIs] at h h'
  cases hv : v.field? "kind" with
  | none => simp [hv] at h
  | some k =>
    rw [hv, Option.any_some] at h h'
    cases k with
    | str text =>
      rw [Json.isText_str, beq_iff_eq] at h h'
      exact h.symm.trans h'
    | _ => cases h

namespace Enumeration

open ClassBody

structure Placement where
  position : Nat
  method : String
  item : Enumerator

def itemsOf (ps : List Placement) (method : String) : List Enumerator :=
  (ps.filter (·.method = method)).map (·.item)

def groupsOf (ps : List Placement) : Table String (List Enumerator) :=
  (ps.map (·.method)).eraseDups.map fun m => (m, itemsOf ps m)

theorem itemsOf_concat (ps : List Placement) (p : Placement) (m : String) :
    itemsOf (ps ++ [p]) m = if m = p.method then itemsOf ps m ++ [p.item] else itemsOf ps m := by
  by_cases hm : m = p.method
  · simp [itemsOf, hm]
  · simp [itemsOf, hm, Ne.symm hm]

theorem itemsOf_eq_nil {ps : List Placement} {m : String} (h : m ∉ ps.map (·.method)) :
    itemsOf ps m = [] := by
  simpa [itemsOf] using h

theorem groupsOf_concat (ps : List Placement) (p : Placement) : groupsOf (ps ++ [p]) =
    (groupsOf ps).insert p.method (((groupsOf ps).get? p.method).getD [] ++ [p.item]) := by
  simp only [groupsOf, itemsOf_concat]
  rw [List.map_append, List.map_singleton]
  by_cases hp : p.method ∈ ps.map (·.method)
  · have hmem := List.mem_eraseDups.2 hp
    rw [Distinct.eraseDups_concat_of_mem hp, Table.get?_map_of_mem hmem,
      Table.insert_map_of_mem hmem (Distinct.nodup_eraseDups _)]
    apply List.map_congr_left
    intro m _
    by_cases hm : m = p.method
    · simp [hm]
    · simp [hm]
  · have hmem : p.method ∉ (ps.map (·.method)).eraseDups := fun h => hp (List.mem_eraseDups.1 h)
    rw [Distinct.eraseDups_concat_of_not_mem hp, Table.get?_map_of_not_mem hmem,
      Table.insert_map_of_not_mem hmem, List.map_append, List.map_singleton, if_pos rfl,
      itemsOf_eq_nil hp]
    congr 1
    apply List.map_congr_left
    intro m hm
    rw [if_neg (ne_of_mem_of_not_mem hm hmem)]

/-- The child at the position is a flag constant in a public region. -/
structure ConstantAt (cls : Json) (i : Nat) (v : Json) : Prop where
  child : (Tree.children cls)[i]? = some v
  isPublic : publicAt cls i = true
  kind : Tree.hasKind "VarDecl" v = true
  constant : isFlagConstant v = .ok true

def namedMethod? (v : Json) : Except Fault (Option String) := do
  return flagMethod? (((← Comment.find? v).map Comment.text).getD "").toList

def Holds (v : Json) (item : Enumerator) : Prop :=
  v.field? "name" = some item.name ∧ item.name.isTruthy = true ∧
    firstInteger v = .ok (some item.value)

def OpensAt (cls : Json) (i : Nat) (method : String) : Prop :=
  ∃ v, ConstantAt cls i v ∧ namedMethod? v = .ok (some method)

/-- The child at the position does not close the group. -/
def PassesAt (cls : Json) (i : Nat) : Prop :=
  (∃ v, ConstantAt cls i v) ∨
    ∃ v, (Tree.children cls)[i]? = some v ∧ isSpecifier v = true ∧ publicAt cls (i + 1) = true

def RunsAt (cls : Json) (i : Nat) (method : String) : Prop :=
  ∃ j ≤ i, OpensAt cls j method ∧ (∀ k, j < k → k ≤ i → ∀ m, ¬ OpensAt cls k m) ∧
    ∀ k, j < k → k < i → PassesAt cls k

def Joins (cls : Json) (p : Placement) : Prop :=
  (∃ v, ConstantAt cls p.position v ∧ Holds v p.item) ∧ RunsAt cls p.position p.method

/-- The group of the method is open when the child at the position comes. -/
def OpenBefore (cls : Json) (i : Nat) (method : String) : Prop :=
  ∃ j < i, OpensAt cls j method ∧
    ∀ k, j < k → k < i → (∀ m, ¬ OpensAt cls k m) ∧ PassesAt cls k

variable {cls : Json} {i : Nat} {method : String}

theorem not_openBefore_zero : ¬ OpenBefore cls 0 method := by
  rintro ⟨j, hj, -⟩
  exact absurd hj (Nat.not_lt_zero j)

theorem openBefore_succ : OpenBefore cls (i + 1) method ↔
    OpensAt cls i method ∨
      OpenBefore cls i method ∧ (∀ m, ¬ OpensAt cls i m) ∧ PassesAt cls i := by
  constructor
  · rintro ⟨j, hj, hopens, hbetween⟩
    rcases Nat.lt_succ_iff_lt_or_eq.1 hj with hlt | rfl
    · obtain ⟨hsilent, hpasses⟩ := hbetween i hlt (Nat.lt_succ_self i)
      exact .inr ⟨⟨j, hlt, hopens, fun k hjk hki => hbetween k hjk (Nat.lt_succ_of_lt hki)⟩,
        hsilent, hpasses⟩
    · exact .inl hopens
  · rintro (hopens | ⟨⟨j, hj, hopens, hbetween⟩, hsilent, hpasses⟩)
    · refine ⟨i, Nat.lt_succ_self i, hopens, fun k hik hki => ?_⟩
      omega
    · refine ⟨j, Nat.lt_succ_of_lt hj, hopens, fun k hjk hki => ?_⟩
      rcases Nat.lt_succ_iff_lt_or_eq.1 hki with hlt | rfl
      · exact hbetween k hjk hlt
      · exact ⟨hsilent, hpasses⟩

theorem runsAt_iff : RunsAt cls i method ↔
    OpensAt cls i method ∨ OpenBefore cls i method ∧ ∀ m, ¬ OpensAt cls i m := by
  constructor
  · rintro ⟨j, hj, hopens, hsilent, hpasses⟩
    rcases Nat.lt_or_eq_of_le hj with hlt | rfl
    · exact .inr ⟨⟨j, hlt, hopens, fun k hjk hki =>
        ⟨hsilent k hjk (Nat.le_of_lt hki), hpasses k hjk hki⟩⟩, hsilent i hlt (Nat.le_refl i)⟩
    · exact .inl hopens
  · rintro (hopens | ⟨⟨j, hj, hopens, hbetween⟩, hsilent⟩)
    · exact ⟨i, Nat.le_refl i, hopens, fun k hik hki => by omega, fun k hik hki => by omega⟩
    · refine ⟨j, Nat.le_of_lt hj, hopens, fun k hjk hki => ?_, fun k hjk hki =>
        (hbetween k hjk hki).2⟩
      rcases Nat.lt_or_eq_of_le hki with hlt | rfl
      · exact (hbetween k hjk hlt).1
      · exact hsilent

variable {namespaceName : String} {className : Json} {s s' : Declared}

def IsConstant : Entry → Json → Prop
  | .specifier _, _ => False
  | .member isPublic v, c =>
    v = c ∧ isPublic = true ∧ Tree.hasKind "VarDecl" v = true ∧ isFlagConstant v = .ok true

inductive Turn (e : Entry) (s s' : Declared) : Prop
  | specifier {isPublic : Bool} (he : e = .specifier isPublic)
      (hactive : s'.active = if isPublic then s.active else none) (hflags : s'.flags = s.flags)
  | other {isPublic : Bool} {v : Json} (he : e = .member isPublic v) (hv : ∀ c, ¬ IsConstant e c)
      (hactive : s'.active = none) (hflags : s'.flags = s.flags)
  | constant {v : Json} {named : Option String} (he : IsConstant e v)
      (hnamed : namedMethod? v = .ok named) (hactive : s'.active = named.or s.active)
      (hitem : ∀ item, Holds v item → s'.active = none) (hflags : s'.flags = s.flags)
  | flag {v : Json} {named : Option String} {method : String} {item : Enumerator}
      (he : IsConstant e v) (hnamed : namedMethod? v = .ok named)
      (hactive : s'.active = named.or s.active) (hmethod : s'.active = some method)
      (hitem : Holds v item)
      (hflags : s'.flags = s.flags.insert method ((s.flags.get? method).getD [] ++ [item]))

theorem closed_of_declareEnum {v : Json}
    (h : declareEnum namespaceName className s v = .ok s') :
    s'.active = none ∧ s'.flags = s.flags := by
  rw [declareEnum] at h
  split at h
  · cases h
    exact ⟨rfl, rfl⟩
  · split at h
    · cases h
      exact ⟨rfl, rfl⟩
    · obtain ⟨items, -, h⟩ := Outcome.bind_eq_ok.1 h
      split at h
      · cases h
        exact ⟨rfl, rfl⟩
      · obtain ⟨name, -, h⟩ := Outcome.bind_eq_ok.1 h
        obtain ⟨owner, -, h⟩ := Outcome.bind_eq_ok.1 h
        cases h
        rw [Declared.addEnum]
        split <;> exact ⟨rfl, rfl⟩

theorem turn_of_declareFlag {e : Entry} {v : Json} (he : IsConstant e v)
    (h : declareFlag s v = .ok s') : Turn e s s' := by
  obtain ⟨comment, hcomment, h⟩ := Outcome.bind_eq_ok.1 h
  have hnamed : namedMethod? v =
      .ok (flagMethod? ((comment.map Comment.text).getD "").toList) := by
    rw [namedMethod?, hcomment]
    rfl
  dsimp only at h
  split at h
  · next hnone =>
    cases h
    exact .constant he hnamed rfl (fun _ _ => hnone) rfl
  · next method hmethod =>
    obtain ⟨value?, hvalue, h⟩ := Outcome.bind_eq_ok.1 h
    split at h
    · next value name hname =>
      cases h
      split
      · next htruthy => exact .flag he hnamed rfl hmethod ⟨hname, htruthy, hvalue⟩ rfl
      · next htruthy =>
        refine .constant he hnamed rfl (fun item hitem => ?_) rfl
        cases hname.symm.trans hitem.1
        exact absurd hitem.2.1 htruthy
    · next hpair =>
      cases h
      refine .constant he hnamed rfl (fun item hitem => ?_) rfl
      cases hvalue.symm.trans hitem.2.2
      exact absurd hitem.1 (hpair item.value item.name rfl)

theorem turn_of_declare {e : Entry} (h : declare namespaceName className s e = .ok s') :
    Turn e s s' := by
  cases e with
  | specifier isPublic =>
    cases h
    cases isPublic <;> exact .specifier rfl rfl rfl
  | member isPublic v =>
    obtain ⟨-, -, h⟩ := Outcome.bind_eq_ok.1 h
    split at h
    · next hpublic =>
      cases h
      exact .other rfl (fun c hc => by simp [hc.2.1] at hpublic) rfl rfl
    · next hpublic =>
      split at h
      · next hkind =>
        obtain ⟨hactive, hflags⟩ := closed_of_declareEnum h
        refine .other rfl (fun c hc => ?_) hactive hflags
        exact absurd (Tree.eq_of_hasKind hkind hc.2.2.1) (by decide)
      · split at h
        · next hkind =>
          obtain ⟨constant, hconstant, h⟩ := Outcome.bind_eq_ok.1 h
          split at h
          · next hyes =>
            cases hyes
            exact turn_of_declareFlag ⟨rfl, by simpa using hpublic, hkind, hconstant⟩ h
          · next hno =>
            cases h
            refine .other rfl (fun c hc => ?_) rfl rfl
            cases hc.2.2.2.symm.trans hconstant
            exact hno rfl
        · next hkind =>
          cases h
          exact .other rfl (fun c hc => hkind hc.2.2.1) rfl rfl

theorem constantAt_iff {e : Entry} (he : (entries cls)[i]? = some e) {v : Json} :
    ConstantAt cls i v ↔ IsConstant e v := by
  rw [getElem?_entries] at he
  obtain ⟨c, hc, rfl⟩ := Option.map_eq_some_iff.1 he
  cases hspecifier : isSpecifier c with
  | true =>
    refine ⟨fun h => ?_, False.elim⟩
    cases hc.symm.trans h.child
    exact absurd (Tree.eq_of_hasKind hspecifier h.kind) (by decide)
  | false =>
    constructor
    · intro h
      cases hc.symm.trans h.child
      exact ⟨rfl, h.isPublic, h.kind, h.constant⟩
    · rintro ⟨rfl, hpublic, hkind, hconstant⟩
      exact ⟨hc, hpublic, hkind, hconstant⟩

theorem passesAt_iff {e : Entry} (he : (entries cls)[i]? = some e) :
    PassesAt cls i ↔ e = .specifier true ∨ ∃ v, IsConstant e v := by
  simp only [PassesAt, constantAt_iff he]
  rw [or_comm]
  apply or_congr_left
  rw [getElem?_entries] at he
  obtain ⟨c, hc, rfl⟩ := Option.map_eq_some_iff.1 he
  simp only [hc, Option.some.injEq, exists_eq_left']
  cases isSpecifier c <;> simp

theorem opensAt_iff {e : Entry} (he : (entries cls)[i]? = some e) {m : String} :
    OpensAt cls i m ↔ ∃ v, IsConstant e v ∧ namedMethod? v = .ok (some m) := by
  simp only [OpensAt, constantAt_iff he]

theorem isConstant_unique {e : Entry} {v v' : Json} (h : IsConstant e v) (h' : IsConstant e v') :
    v = v' := by
  cases e with
  | specifier isPublic => exact h.elim
  | member isPublic c => exact h.1.symm.trans h'.1

theorem openBefore_succ_of_other {e : Entry} (he : (entries cls)[i]? = some e)
    (hother : ∀ v, ¬ IsConstant e v) (m : String) :
    OpenBefore cls (i + 1) m ↔ e = .specifier true ∧ OpenBefore cls i m := by
  simp [openBefore_succ, opensAt_iff he, passesAt_iff he, hother, and_comm]

theorem openBefore_succ_of_constant {e : Entry} (he : (entries cls)[i]? = some e) {v : Json}
    (hv : IsConstant e v) {named : Option String} (hnamed : namedMethod? v = .ok named)
    (m : String) : OpenBefore cls (i + 1) m ↔
      named = some m ∨ named = none ∧ OpenBefore cls i m := by
  have hopens : ∀ m, OpensAt cls i m ↔ named = some m := by
    intro m
    rw [opensAt_iff he]
    constructor
    · rintro ⟨c, hc, hm⟩
      cases isConstant_unique hv hc
      exact Except.ok.inj (hnamed.symm.trans hm)
    · rintro rfl
      exact ⟨v, hv, hnamed⟩
  have hpasses : PassesAt cls i := (passesAt_iff he).2 (.inr ⟨v, hv⟩)
  simp only [openBefore_succ, hopens, hpasses, and_true, ← Option.eq_none_iff_forall_ne_some]
  rw [and_comm]

theorem joins_iff {p : Placement} : Joins cls p ↔
    (∃ v, ConstantAt cls p.position v ∧ Holds v p.item) ∧
      OpenBefore cls (p.position + 1) p.method := by
  apply and_congr_right
  rintro ⟨v, hv, -⟩
  have hpasses : PassesAt cls p.position := .inl ⟨v, hv⟩
  simp only [runsAt_iff, openBefore_succ, hpasses, and_true]

theorem holds_unique {v : Json} {item item' : Enumerator} (h : Holds v item)
    (h' : Holds v item') : item = item' := by
  cases item
  cases item'
  cases h.1.symm.trans h'.1
  cases h.2.2.symm.trans h'.2.2
  rfl

structure Before (cls : Json) (i : Nat) (s : Declared) (ps : List Placement) : Prop where
  active : ∀ m, s.active = some m ↔ OpenBefore cls i m
  flags : s.flags = groupsOf ps
  ascending : ps.Pairwise (·.position < ·.position)
  placed : ∀ p, p ∈ ps ↔ p.position < i ∧ Joins cls p

theorem before_empty : Before cls 0 .empty [] where
  active m := by simp [Declared.empty, not_openBefore_zero]
  flags := rfl
  ascending := .nil
  placed p := by simp

theorem Before.keep {ps : List Placement} (h : Before cls i s ps)
    (hactive : ∀ m, s'.active = some m ↔ OpenBefore cls (i + 1) m) (hflags : s'.flags = s.flags)
    (hjoins : ∀ p, Joins cls p → p.position ≠ i) : Before cls (i + 1) s' ps where
  active := hactive
  flags := hflags.trans h.flags
  ascending := h.ascending
  placed p := by
    rw [h.placed]
    constructor
    · exact fun hp => ⟨Nat.lt_succ_of_lt hp.1, hp.2⟩
    · rintro ⟨hlt, hp⟩
      exact ⟨Nat.lt_of_le_of_ne (Nat.le_of_lt_succ hlt) (hjoins p hp), hp⟩

theorem Before.join {ps : List Placement} (h : Before cls i s ps) {p : Placement}
    (hactive : ∀ m, s'.active = some m ↔ OpenBefore cls (i + 1) m)
    (hflags : s'.flags = s.flags.insert p.method ((s.flags.get? p.method).getD [] ++ [p.item]))
    (hjoins : ∀ q, Joins cls q ∧ q.position = i ↔ q = p) : Before cls (i + 1) s' (ps ++ [p]) where
  active := hactive
  flags := by rw [hflags, h.flags, groupsOf_concat]
  ascending := by
    refine List.pairwise_append.2 ⟨h.ascending, List.pairwise_singleton _ p, ?_⟩
    intro q hq r hr
    cases List.mem_singleton.1 hr
    rw [((hjoins p).2 rfl).2]
    exact ((h.placed q).1 hq).1
  placed q := by
    rw [List.mem_append, h.placed, List.mem_singleton, ← hjoins]
    constructor
    · rintro (⟨hlt, hq⟩ | ⟨hq, heq⟩)
      · exact ⟨Nat.lt_succ_of_lt hlt, hq⟩
      · exact ⟨by omega, hq⟩
    · rintro ⟨hlt, hq⟩
      rcases Nat.lt_succ_iff_lt_or_eq.1 hlt with hlt | heq
      · exact .inl ⟨hlt, hq⟩
      · exact .inr ⟨hq, heq⟩

theorem Before.step {ps : List Placement} {e : Entry} (h : Before cls i s ps)
    (he : (entries cls)[i]? = some e) (hturn : Turn e s s') :
    ∃ ps', Before cls (i + 1) s' ps' := by
  -- where the entry is no constant, nothing joins
  have hother : (∀ v, ¬ IsConstant e v) → ∀ p, Joins cls p → p.position ≠ i := by
    rintro hv p ⟨⟨v, hconstant, -⟩, -⟩ rfl
    exact hv v ((constantAt_iff he).1 hconstant)
  -- after a constant, the open group is the one that its comment names, or the one before
  have hopen : ∀ {v : Json} {named : Option String}, IsConstant e v →
      namedMethod? v = .ok named → s'.active = named.or s.active →
        ∀ m, s'.active = some m ↔ OpenBefore cls (i + 1) m := by
    intro v named hv hnamed hactive m
    rw [openBefore_succ_of_constant he hv hnamed, hactive, Option.or_eq_some_iff, h.active]
  cases hturn with
  | @specifier isPublic hentry hactive hflags =>
    subst hentry
    have hv : ∀ v, ¬ IsConstant (.specifier isPublic) v := fun _ => id
    refine ⟨ps, h.keep (fun m => ?_) hflags (hother hv)⟩
    rw [openBefore_succ_of_other he hv, hactive, ← h.active]
    cases isPublic <;> simp
  | other hentry hv hactive hflags =>
    refine ⟨ps, h.keep (fun m => ?_) hflags (hother hv)⟩
    rw [openBefore_succ_of_other he hv, hactive, hentry]
    simp
  | constant hv hnamed hactive hitem hflags =>
    refine ⟨ps, h.keep (hopen hv hnamed hactive) hflags ?_⟩
    rintro p hp rfl
    obtain ⟨⟨c, hc, hholds⟩, hmethod⟩ := joins_iff.1 hp
    cases isConstant_unique hv ((constantAt_iff he).1 hc)
    rw [← hopen hv hnamed hactive, hitem _ hholds] at hmethod
    cases hmethod
  | @flag v named method item hv hnamed hactive hmethod hitem hflags =>
    refine ⟨ps ++ [⟨i, method, item⟩], h.join (hopen hv hnamed hactive) hflags ?_⟩
    intro q
    constructor
    · rintro ⟨hq, rfl⟩
      obtain ⟨⟨c, hc, hholds⟩, hrun⟩ := joins_iff.1 hq
      cases isConstant_unique hv ((constantAt_iff he).1 hc)
      rw [← hopen hv hnamed hactive, hmethod] at hrun
      cases holds_unique hitem hholds
      cases hrun
      rfl
    · rintro rfl
      refine ⟨joins_iff.2 ⟨⟨v, (constantAt_iff he).2 hv, hitem⟩, ?_⟩, rfl⟩
      exact (hopen hv hnamed hactive method).1 hmethod

theorem exists_before {es : List Entry} {ps : List Placement}
    (hes : ∀ k, (entries cls)[i + k]? = es[k]?) (h : Before cls i s ps)
    (hrun : declareAll namespaceName className s es = (s', none)) :
    ∃ ps', Before cls (i + es.length) s' ps' := by
  induction es generalizing i s ps with
  | nil =>
    cases hrun
    exact ⟨ps, h⟩
  | cons e es ih =>
    rw [declareAll] at hrun
    split at hrun
    · next s₁ hs₁ =>
      obtain ⟨ps₁, h₁⟩ := h.step (hes 0) (turn_of_declare hs₁)
      have hrest : ∀ k, (entries cls)[i + 1 + k]? = es[k]? := by
        intro k
        rw [Nat.add_right_comm, Nat.add_assoc]
        exact hes (k + 1)
      rw [List.length_cons, Nat.add_comm es.length, ← Nat.add_assoc]
      exact ih hrest h₁ hrun
    · cases hrun

/-- The groups of a class hold just the constants that join them, in the order of the class body,
and come in the order of their first items. -/
theorem flag_groups_of_class {own : ClassEnums} (h : ofClassNode namespaceName cls = .ok own) :
    ∃ ps : List Placement, ps.Pairwise (·.position < ·.position) ∧ (∀ p, p ∈ ps ↔ Joins cls p) ∧
      own.flags = (ps.map (·.method)).eraseDups.map fun m => flagDef m (itemsOf ps m) := by
  rw [ofClassNode, declared] at h
  split at h
  · next s hs =>
    cases h
    split at hs
    · obtain ⟨ps, hps⟩ := exists_before (fun k => by rw [Nat.zero_add]) before_empty hs
      refine ⟨ps, hps.ascending, fun p => ?_, ?_⟩
      · rw [hps.placed]
        refine ⟨And.right, fun hp => ⟨?_, hp⟩⟩
        obtain ⟨⟨v, hv, -⟩, -⟩ := hp
        have hentry := getElem?_entries cls p.position
        rw [hv.child, Option.map_some] at hentry
        obtain ⟨hlt, -⟩ := List.getElem?_eq_some_iff.1 hentry
        rwa [Nat.zero_add]
      · rw [Declared.result, hps.flags, groupsOf, List.map_map]
        rfl
    · cases hs
  · cases h

def flagClass : Json :=
  Casts.nodeOf "CXXRecordDecl" [("name", .str "FGFDMExec"), ("tagUsed", .str "struct")]
    [flagNode "QUIET" "1" [commentNode "Mode flags for Trim"], specifierNode "public",
      flagNode "LOUD" "2" [], methodNode "Run" "bool ()", flagNode "STRAY" "4" [],
      flagNode "HARD" "1" [commentNode "Mode flags for `Reset`"],
      flagNode "DEEP" "8" [commentNode "Mode flags for Trim"]]

theorem flag_groups_of_class_trim : ∃ (own : ClassEnums) (ps : List Placement),
    ofClassNode "JSBSim" flagClass = .ok own ∧
    (∀ p, p ∈ ps ↔ Joins flagClass p) ∧
    own.flags = (ps.map (·.method)).eraseDups.map (fun m => flagDef m (itemsOf ps m)) ∧
    own.flags.map (fun d => (d.tsName, d.items.map fun item => (item.name.display, item.value))) =
      [("TrimMode", [("QUIET", 1), ("LOUD", 2), ("DEEP", 8)]), ("ResetMode", [("HARD", 1)])] := by
  have hown : ofClassNode "JSBSim" flagClass =
      .ok (declared "JSBSim" flagClass).1.result :=
    Metadata.ofClassNode_of_declared (by decide +kernel)
  obtain ⟨ps, -, hps, hflags⟩ := flag_groups_of_class hown
  exact ⟨_, ps, hown, hps, hflags, by decide +kernel⟩

end Enumeration

end WasmBindings
