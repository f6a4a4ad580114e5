import WasmBindings.Conversion
import WasmBindings.Proofs.Carrier
import WasmBindings.Proofs.Text.Run

/-!
Qualified types.  A name is qualified unless a double colon joins it to another identifier, so the
names in a scope stay as they are.  A double colon that has no identifier at its other end, as
after a template argument list, keeps nothing from being qualified.
-/

namespace WasmBindings

open Text

/-- A run of a text with the runs before it, the nearest first, and the runs after it. -/
structure Place where
  before : List (List Char)
  word : List Char
  after : List (List Char)

namespace Place

def facesScope : List (List Char) → Bool
  | [':'] :: [':'] :: _ => true
  | _ => false

def facesName : List (List Char) → Bool
  | [':'] :: [':'] :: n :: _ => Piece.isIdentRun n
  | _ => false

def isScoped (p : Place) : Bool := facesScope p.before || facesScope p.after

/-- Whether a double colon joins the word to another identifier. -/
def isJoined (p : Place) : Bool := facesName p.before || facesName p.after

def isElaborated (p : Place) : Bool := ["enum".toList, "union".toList].contains p.word

def listFrom (before : List (List Char)) : List (List Char) → List Place
  | [] => []
  | w :: ws => ⟨before, w, ws⟩ :: listFrom (w :: before) ws

def list (text : List Char) : List Place := listFrom [] (runs text)

theorem map_word_listFrom (before ws : List (List Char)) :
    (listFrom before ws).map word = ws := by
  induction ws generalizing before with
  | nil => rfl
  | cons w ws ih => rw [listFrom, List.map_cons, ih]

theorem flatMap_word_list (text : List Char) : (list text).flatMap word = text := by
  rw [List.flatMap_def, list, map_word_listFrom, flatten_runs]

end Place

namespace Text

/-- The text of some runs without the tags in it: a tag with blanks after it goes together with all
these blanks. -/
inductive Untags (tags : List (List Char)) : List (List Char) → List Char → Prop where
  | nil : Untags tags [] []
  | keep {w : List Char} {ws : List (List Char)} {text : List Char}
      (h : w ∉ tags ∨ blankNext ws = false) (rest : Untags tags ws text) :
      Untags tags (w :: ws) (w ++ text)
  | tag {w : List Char} {blanks ws : List (List Char)} {text : List Char} (hw : w ∈ tags)
      (hne : blanks ≠ []) (hblanks : ∀ b ∈ blanks, isBlankRun b = true)
      (hend : blankNext ws = false) (rest : Untags tags ws text) :
      Untags tags (w :: (blanks ++ ws)) text

theorem untags_dropTagsFrom (tags : List (List Char)) (skipping : Bool) (ws : List (List Char)) :
    ∃ blanks us, ws = blanks ++ us ∧ (∀ b ∈ blanks, isBlankRun b = true) ∧
      (if skipping then blankNext us = false else blanks = []) ∧
      Untags tags us (dropTagsFrom tags skipping ws) := by
  induction ws generalizing skipping with
  | nil => exact ⟨[], [], by cases skipping <;> simp [blankNext, dropTagsFrom, Untags.nil]⟩
  | cons w ws ih =>
    rw [dropTagsFrom]
    by_cases hskip : (skipping && isBlankRun w) = true
    · rw [if_pos hskip]
      obtain ⟨blanks, us, rfl, hblanks, hend, hus⟩ := ih true
      rw [Bool.and_eq_true] at hskip
      refine ⟨w :: blanks, us, rfl, ?_, ?_, hus⟩
      · exact List.forall_mem_cons.2 ⟨hskip.2, hblanks⟩
      · rw [hskip.1]
        exact hend
    · rw [if_neg hskip]
      refine ⟨[], w :: ws, rfl, by simp, ?_, ?_⟩
      · cases skipping <;> simp_all [blankNext]
      by_cases htag : (tags.contains w && blankNext ws) = true
      · rw [if_pos htag]
        rw [Bool.and_eq_true, List.contains_iff_mem] at htag
        obtain ⟨blanks, us, rfl, hblanks, hend, hus⟩ := ih true
        refine .tag htag.1 ?_ hblanks hend hus
        rintro rfl
        rw [List.nil_append, hend] at htag
        cases htag.2
      · rw [if_neg htag]
        obtain ⟨blanks, us, rfl, -, rfl, hus⟩ := ih false
        refine .keep ?_ hus
        simpa [Classical.or_iff_not_imp_left] using htag

theorem untags_dropTags (tags : List (List Char)) (s : List Char) :
    Untags tags (runs s) (dropTags tags s) := by
  obtain ⟨blanks, us, hws, -, rfl, hus⟩ := untags_dropTagsFrom tags false (runs s)
  rw [hws]
  exact hus

end Text

/-- How much of an identifier with a double colon stands right before a word. -/
inductive Opening where
  | none
  | name
  | colon
  | scope
deriving DecidableEq

namespace Opening

def push : Opening → Opening
  | .name => .colon
  | .colon => .scope
  | .none | .scope => .none

def next (l : Opening) (w : List Char) : Opening :=
  if Piece.isIdentRun w then .name else if w = [':'] then l.push else .none

def ofRuns (before : List (List Char)) : Opening := before.foldr (fun w l => l.next w) .none

theorem next_of_isIdentRun {w : List Char} (hw : Piece.isIdentRun w = true) (l : Opening) :
    l.next w = .name := by
  rw [next, if_pos hw]

theorem isIdentRun_of_next {l : Opening} {w : List Char} (h : l.next w = .name) :
    Piece.isIdentRun w = true := by
  cases l <;> grind [next, push]

theorem of_next_eq_colon {l : Opening} {w : List Char} (h : l.next w = .colon) :
    w = [':'] ∧ l = .name := by
  cases l <;> grind [next, push]

theorem of_next_eq_scope {l : Opening} {w : List Char} (h : l.next w = .scope) :
    w = [':'] ∧ l = .colon := by
  cases l <;> grind [next, push]

theorem ofRuns_cons (w : List Char) (before : List (List Char)) :
    ofRuns (w :: before) = (ofRuns before).next w := rfl

theorem exists_of_ofRuns {before : List (List Char)} {l : Opening} (h : ofRuns before = l)
    (hl : l ≠ .none) : ∃ w rest, before = w :: rest ∧ (ofRuns rest).next w = l := by
  cases before with
  | nil => exact absurd h.symm hl
  | cons w rest => exact ⟨w, rest, rfl, h⟩

theorem ofRuns_eq_scope_iff {before : List (List Char)} :
    ofRuns before = .scope ↔ Place.facesName before = true := by
  constructor
  · intro h
    obtain ⟨w, rest, rfl, hw⟩ := exists_of_ofRuns h (by decide)
    obtain ⟨rfl, hcolon⟩ := of_next_eq_scope hw
    obtain ⟨v, rest, rfl, hv⟩ := exists_of_ofRuns hcolon (by decide)
    obtain ⟨rfl, hname⟩ := of_next_eq_colon hv
    obtain ⟨n, rest, rfl, hn⟩ := exists_of_ofRuns hname (by decide)
    exact isIdentRun_of_next hn
  · intro h
    rw [Place.facesName.eq_def] at h
    split at h
    · rw [ofRuns_cons, ofRuns_cons, ofRuns_cons, next_of_isIdentRun h]
      rfl
    · cases h

def joins : Opening → List Piece → Bool
  | _, [] => false
  | l, .name _ :: _ => l == .scope
  | l, .other t :: ps => t == [':'] && l.push.joins ps

theorem joins_none (ps : List Piece) : none.joins ps = false := by
  induction ps with
  | nil => rfl
  | cons p ps ih =>
    cases p with
    | name n => rfl
    | other t => rw [joins, push, ih, Bool.and_false]

theorem joins_name_iff {ps : List Piece} : name.joins ps = true ↔
    ∃ n rest, ps = .other [':'] :: .other [':'] :: .name n :: rest := by
  constructor
  · intro h
    rcases ps with _ | ⟨_ | t, _ | ⟨_ | u, _ | ⟨n | v, ps⟩⟩⟩ <;>
      simp only [joins, push, joins_none, Bool.and_false, Bool.false_eq_true, Bool.and_eq_true,
        beq_iff_eq, reduceCtorEq, and_false, and_true] at h
    obtain ⟨rfl, rfl⟩ := h
    exact ⟨n, ps, rfl⟩
  · rintro ⟨n, ps, rfl⟩
    rfl

theorem joins_next {l : Opening} {t : List Char} {ps : List Piece}
    (ht : Piece.isIdentRun t = false) (h : l.joins (.other t :: ps) = false) :
    (l.next t).joins ps = false := by
  rw [next, if_neg (by simp [ht])]
  split
  · next hcolon =>
    rw [joins, hcolon] at h
    exact h
  · exact joins_none ps

end Opening

namespace Piece

theorem isIdentRun_colon : isIdentRun [':'] = false := by decide

theorem ofRuns_other {w : List Char} (hw : isIdentRun w = false) (ws : List (List Char)) :
    ofRuns (w :: ws) = .other w :: ofRuns ws := by
  rw [ofRuns, hw, if_neg Bool.false_ne_true]

theorem ofRuns_joined {w n : List Char} {ws : List (List Char)} {ps : List Piece}
    (hw : isIdentRun w = true)
    (h : ofRuns ws = .other [':'] :: .other [':'] :: .name n :: ps) :
    ofRuns (w :: ws) = .name (w ++ ':' :: ':' :: n) :: ps := by
  rw [ofRuns, hw, if_pos rfl, h]
  rfl

theorem ofRuns_single {w : List Char} {ws : List (List Char)} (hw : isIdentRun w = true)
    (h : Opening.name.joins (ofRuns ws) = false) : ofRuns (w :: ws) = .name w :: ofRuns ws := by
  rw [ofRuns, hw, if_pos rfl]
  split
  · next heq =>
    rw [heq] at h
    cases h
  · rfl

theorem ofRuns_ident_cases {w : List Char} (hw : isIdentRun w = true) (ws : List (List Char)) :
    (∃ n ps, ofRuns ws = .other [':'] :: .other [':'] :: .name n :: ps ∧
      ofRuns (w :: ws) = .name (w ++ ':' :: ':' :: n) :: ps) ∨
    (Opening.name.joins (ofRuns ws) = false ∧ ofRuns (w :: ws) = .name w :: ofRuns ws) := by
  cases h : Opening.name.joins (ofRuns ws) with
  | true =>
    obtain ⟨n, ps, hps⟩ := Opening.joins_name_iff.1 h
    exact .inl ⟨n, ps, hps, ofRuns_joined hw hps⟩
  | false => exact .inr ⟨rfl, ofRuns_single hw h⟩

theorem exists_name_ofRuns {w : List Char} (hw : isIdentRun w = true) (ws : List (List Char)) :
    ∃ n ps, ofRuns (w :: ws) = .name n :: ps := by
  rcases ofRuns_ident_cases hw ws with ⟨n, ps, -, h⟩ | ⟨-, h⟩
  · exact ⟨_, _, h⟩
  · exact ⟨_, _, h⟩

theorem ofRuns_colons (ws : List (List Char)) :
    ofRuns ([':'] :: [':'] :: ws) = .other [':'] :: .other [':'] :: ofRuns ws := by
  rw [ofRuns_other isIdentRun_colon, ofRuns_other isIdentRun_colon]

theorem eq_colon_of_ofRuns {ws : List (List Char)} {ps : List Piece}
    (h : ofRuns ws = .other [':'] :: ps) : ∃ vs, ws = [':'] :: vs ∧ ofRuns vs = ps := by
  cases ws with
  | nil => cases h
  | cons w ws =>
    cases hw : isIdentRun w with
    | true =>
      obtain ⟨n, qs, hname⟩ := exists_name_ofRuns hw ws
      rw [hname] at h
      cases h
    | false =>
      rw [ofRuns_other hw] at h
      injection h with hword hrest
      injection hword with hword
      exact ⟨ws, by rw [hword], hrest⟩

theorem joins_name_ofRuns (ws : List (List Char)) :
    Opening.name.joins (ofRuns ws) = Place.facesName ws := by
  rw [Bool.eq_iff_iff, Opening.joins_name_iff]
  constructor
  · rintro ⟨n, ps, h⟩
    obtain ⟨us, rfl, hus⟩ := eq_colon_of_ofRuns h
    obtain ⟨vs, rfl, hvs⟩ := eq_colon_of_ofRuns hus
    cases vs with
    | nil => cases hvs
    | cons v vs =>
      rw [Place.facesName]
      by_contra hv
      rw [ofRuns_other (by simpa using hv)] at hvs
      cases hvs
  · intro h
    rw [Place.facesName.eq_def] at h
    split at h
    · next n rest =>
      obtain ⟨m, ps, hname⟩ := exists_name_ofRuns h rest
      exact ⟨m, ps, by rw [ofRuns_colons, hname]⟩
    · cases h

def Settled : List Piece → Prop
  | [] => True
  | .name _ :: ps => Opening.name.joins ps = false ∧ Settled ps
  | .other t :: ps => isIdentRun t = false ∧ Settled ps

theorem settled_ofRuns (ws : List (List Char)) : Settled (ofRuns ws) := by
  induction ws with
  | nil => trivial
  | cons w ws ih =>
    cases hw : isIdentRun w with
    | true =>
      rcases ofRuns_ident_cases hw ws with ⟨n, ps, hps, h⟩ | ⟨hopens, h⟩
      · rw [hps] at ih
        rw [h]
        exact ih.2.2
      · rw [h]
        exact ⟨hopens, ih⟩
    | false =>
      rw [ofRuns_other hw]
      exact ⟨hw, ih⟩

end Piece

namespace Converter

variable (c : Converter)

def newName (name : String) : String :=
  (c.qualifiedNames.get? name).getD (c.namespaceName ++ "::" ++ name)

def written (p : Place) : List Char :=
  if Piece.isIdentRun p.word && !p.isJoined && !c.keepsWord (String.ofList p.word) then
    (c.newName (String.ofList p.word)).toList
  else p.word

def qualifyFrom : Opening → List Piece → List Char
  | _, [] => []
  | l, .other t :: ps => t ++ qualifyFrom (l.next t) ps
  | l, .name n :: ps =>
    (if l = .scope then n else c.qualifyPiece (.name n)) ++ qualifyFrom .name ps

theorem qualifyFrom_of_not_joins {l : Opening} {ps : List Piece} (hps : Piece.Settled ps)
    (hl : l.joins ps = false) : c.qualifyFrom l ps = ps.flatMap c.qualifyPiece := by
  induction ps generalizing l with
  | nil => rfl
  | cons p ps ih =>
    cases p with
    | name n =>
      have hscope : l ≠ .scope := by
        rintro rfl
        cases hl
      rw [qualifyFrom, if_neg hscope, ih hps.2 hps.1, List.flatMap_cons]
    | other t =>
      rw [qualifyFrom, ih hps.2 (Opening.joins_next hps.1 hl), List.flatMap_cons]
      rfl

theorem qualifyPiece_scoped (w n : List Char) :
    c.qualifyPiece (.name (w ++ ':' :: ':' :: n)) = w ++ ':' :: ':' :: n := by
  have hscoped : Scope.isScoped (String.ofList (w ++ ':' :: ':' :: n)) = true := by
    rw [Scope.isScoped, String.toList_ofList, occursIn_iff]
    exact ⟨w, n, by simp⟩
  rw [qualifyPiece, qualifyName, hscoped, Bool.true_or, if_pos rfl, String.toList_ofList]

theorem isScoped_of_isIdentRun {w : List Char} (hw : Piece.isIdentRun w = true) :
    Scope.isScoped (String.ofList w) = false := by
  rw [Scope.isScoped, String.toList_ofList, Bool.eq_false_iff, ne_eq, occursIn_iff]
  intro h
  have hcolon : ':' ∈ w := h.subset List.mem_cons_self
  cases w with
  | nil => cases hcolon
  | cons d r =>
    rw [Piece.isIdentRun, Bool.and_eq_true] at hw
    rcases List.mem_cons.1 hcolon with rfl | hr
    · exact absurd hw.1 (by decide)
    · exact absurd (List.all_eq_true.1 hw.2 _ hr) (by decide)

theorem qualifyPiece_word (hns : c.namespaceName ≠ "") {w : List Char}
    (hw : Piece.isIdentRun w = true) : c.qualifyPiece (.name w) =
      if c.keepsWord (String.ofList w) then w else (c.newName (String.ofList w)).toList := by
  rw [qualifyPiece, qualifyName, isScoped_of_isIdentRun hw, Bool.false_or]
  split
  · rw [String.toList_ofList]
  · rw [newName, scopeText, if_neg (by simpa using hns)]
    cases c.qualifiedNames.get? (String.ofList w) <;> rfl

section Written

variable {p : Place}

theorem written_of_not_isIdentRun (hp : Piece.isIdentRun p.word = false) :
    c.written p = p.word := by
  rw [written, hp, Bool.false_and, Bool.false_and, if_neg Bool.false_ne_true]

theorem written_of_isJoined (hp : p.isJoined = true) : c.written p = p.word := by
  rw [written, hp, Bool.not_true, Bool.and_false, Bool.false_and, if_neg Bool.false_ne_true]

theorem written_of_apart (hns : c.namespaceName ≠ "") (hp : Piece.isIdentRun p.word = true)
    (h : p.isJoined = false) : c.written p = c.qualifyPiece (.name p.word) := by
  rw [written, hp, h, qualifyPiece_word c hns hp]
  cases c.keepsWord (String.ofList p.word) <;> rfl

end Written

theorem qualifyFrom_joined (l : Opening) (w n : List Char) (ps : List Piece) :
    c.qualifyFrom l (.name (w ++ ':' :: ':' :: n) :: ps) =
      w ++ c.qualifyFrom .name (.other [':'] :: .other [':'] :: .name n :: ps) := by
  have hleft : c.qualifyFrom l (.name (w ++ ':' :: ':' :: n) :: ps) =
      (w ++ ':' :: ':' :: n) ++ c.qualifyFrom .name ps := by
    rw [qualifyFrom, qualifyPiece_scoped, ite_self]
  have hright : c.qualifyFrom .name (.other [':'] :: .other [':'] :: .name n :: ps) =
      ':' :: ':' :: (n ++ c.qualifyFrom .name ps) := rfl
  rw [hleft, hright, List.append_assoc]
  rfl

theorem flatMap_written_listFrom (hns : c.namespaceName ≠ "") (before ws : List (List Char)) :
    (Place.listFrom before ws).flatMap c.written =
      c.qualifyFrom (Opening.ofRuns before) (Piece.ofRuns ws) := by
  induction ws generalizing before with
  | nil => rfl
  | cons w ws ih =>
    rw [Place.listFrom, List.flatMap_cons, ih, Opening.ofRuns_cons]
    cases hw : Piece.isIdentRun w with
    | false =>
      rw [Piece.ofRuns_other hw, qualifyFrom, written_of_not_isIdentRun c hw]
    | true =>
      rw [Opening.next_of_isIdentRun hw]
      have hfaces := Piece.joins_name_ofRuns ws
      rcases Piece.ofRuns_ident_cases hw ws with ⟨n, ps, hps, h⟩ | ⟨hopens, h⟩
      · have hjoined : Place.isJoined ⟨before, w, ws⟩ = true := by
          rw [Place.isJoined, ← hfaces, hps]
          exact Bool.or_true _
        rw [h, qualifyFrom_joined, ← hps, written_of_isJoined c hjoined]
      · rw [hopens] at hfaces
        rw [h, qualifyFrom]
        congr 1
        by_cases hscope : Opening.ofRuns before = .scope
        · rw [if_pos hscope]
          apply written_of_isJoined
          rw [Place.isJoined, Opening.ofRuns_eq_scope_iff.1 hscope, Bool.true_or]
        · rw [if_neg hscope]
          apply written_of_apart c hns hw
          rw [Place.isJoined, ← hfaces, Bool.or_false]
          simpa [Opening.ofRuns_eq_scope_iff] using hscope

theorem qualify_eq_flatMap_written (hns : c.namespaceName ≠ "") (type : String) :
    (c.qualify type).toList =
      (Place.list (dropTags tagWords type.toList)).flatMap c.written := by
  have hpieces := c.qualifyFrom_of_not_joins
    (Piece.settled_ofRuns (runs (dropTags tagWords type.toList))) (Opening.joins_none _)
  rw [qualify, String.toList_ofList, Place.list, flatMap_written_listFrom c hns, ← hpieces]
  rfl

def untagged (type : String) : List Char := dropTags tagWords type.toList

def Renames (w : List Char) : Prop :=
  Piece.isIdentRun w = true ∧ c.keepsWord (String.ofList w) = false ∧
    (c.newName (String.ofList w)).toList ≠ w

/-- Only identifiers are qualified that no double colon touches and that open no elaborated
type. -/
def SparesScoped (text : List Char) : Prop :=
  ∀ p ∈ Place.list text, c.written p ≠ p.word → p.isScoped = false ∧ p.isElaborated = false

instance (w : List Char) : Decidable (c.Renames w) := inferInstanceAs (Decidable (_ ∧ _ ∧ _))

instance (text : List Char) : Decidable (c.SparesScoped text) :=
  inferInstanceAs (Decidable (∀ p ∈ Place.list text, _))

theorem written_ne_iff (p : Place) :
    c.written p ≠ p.word ↔ c.Renames p.word ∧ p.isJoined = false := by
  rw [Renames, written]
  cases Piece.isIdentRun p.word <;> cases p.isJoined <;>
    cases c.keepsWord (String.ofList p.word) <;> simp

theorem sparesScoped_iff (text : List Char) : c.SparesScoped text ↔
    ∀ p ∈ Place.list text, c.Renames p.word → p.isScoped = true ∨ p.isElaborated = true →
      p.isJoined = true := by
  rw [SparesScoped]
  apply forall₂_congr
  intro p _
  rw [written_ne_iff]
  cases p.isJoined <;> cases p.isScoped <;> cases p.isElaborated <;> simp

/-- Identifiers that a double colon joins stay, and all others become what they stand for, so the
members of a scope are spared just when an identifier joins each of them to it.  The struct and
class tags go with the blanks after them, and all other text stays. -/
theorem qualify_spares_scoped_iff (hns : c.namespaceName ≠ "") (type : String) :
    Untags tagWords (runs type.toList) (untagged type) ∧
      (Place.list (untagged type)).flatMap Place.word = untagged type ∧
      (c.qualify type).toList = (Place.list (untagged type)).flatMap c.written ∧
      (c.SparesScoped (untagged type) ↔
        ∀ p ∈ Place.list (untagged type), c.Renames p.word →
          p.isScoped = true ∨ p.isElaborated = true → p.isJoined = true) :=
  ⟨untags_dropTags tagWords type.toList, Place.flatMap_word_list (untagged type),
    c.qualify_eq_flatMap_written hns type, c.sparesScoped_iff (untagged type)⟩

theorem qualify_not_spares_scoped : executive.namespaceName ≠ "" ∧
    executive.qualify "std::vector<FGTrim>::iterator" =
      "std::vector<JSBSim::FGTrim>::JSBSim::iterator" ∧
    ¬ executive.SparesScoped (untagged "std::vector<FGTrim>::iterator") ∧
    executive.qualify "enum Mode" = "JSBSim::enum JSBSim::Mode" ∧
    ¬ executive.SparesScoped (untagged "enum Mode") := by
  decide +kernel

theorem qualify_spares_scoped_message : executive.namespaceName ≠ "" ∧
    executive.SparesScoped (untagged "std::map<struct FGState, FGJSBBase::Message>&") := by
  have hns : executive.namespaceName ≠ "" := by decide
  refine ⟨hns, (executive.qualify_spares_scoped_iff hns _).2.2.2.2 ?_⟩
  decide +kernel

end Converter

end WasmBindings
