import WasmBindings.Proofs.Overrides
import WasmBindings.Proofs.Signature

/-!
The overrides of one method.  All methods write into the same tables, but a key determines the name
and the normalized types of its method, so methods that share a key offer the same types for their
parameters and the overrides of a method do not depend on the order of the methods.
-/

namespace WasmBindings

/-- The name and the types of the method can be read off its key. -/
def Method.Readable (m : Method) : Prop := Signature.Readable m.name m.paramTypes

instance (m : Method) : Decidable m.Readable :=
  inferInstanceAs (Decidable (Signature.Readable m.name m.paramTypes))

/-- Every position stands once below each key. -/
structure Casts.Distinct (casts : Casts) : Prop where
  byMethod : casts.byMethod.DistinctPositions
  byArity : casts.byArity.DistinctPositions

theorem Casts.Distinct.nodup_keys {casts : Casts} (h : casts.Distinct) {m : Method}
    {types : Table Int String} (htypes : casts.forMethod m = some types) : types.keys.Nodup := by
  rw [forMethod, Option.or_eq_some_iff] at htypes
  rcases htypes with htypes | ⟨-, htypes⟩
  · exact h.byMethod m.key types htypes
  · exact h.byArity m.arityKey types htypes

theorem Casts.distinct_of_collect {tree : Json} {names : List String} {casts : Casts}
    (h : collect tree names = .ok casts) : casts.Distinct := by
  have hempty : Table.DistinctPositions [] := by
    intro key types htypes
    cases htypes
  rw [collect_eq] at h
  obtain ⟨ss, -, rfl⟩ := Outcome.map_eq_ok.1 h
  constructor
  · rw [byMethod_foldl_note]
    exact hempty.enterAll _
  · rw [byArity_foldl_note]
    exact hempty.enterAll _

def Table.Agree (t u : Table String (Table Int String)) : Prop :=
  ∀ key, (t.get? key).isSome = (u.get? key).isSome ∧ ∀ i, t.getAt? key i = u.getAt? key i

theorem Converter.carrier_congr (c : Converter) {s t : String}
    (h : Spelling.normalize s = Spelling.normalize t) (isReturn : Bool) :
    c.carrier s isReturn = c.carrier t isReturn := by
  simp only [carrier, h]

namespace Metadata.Overrides

theorem findSome?_of_agree {α β : Type} {f : α → Option β} {xs : List α} {v : Option β}
    (h : ∀ x ∈ xs, f x = none ∨ f x = v) {x : α} (hx : x ∈ xs) (hv : f x = v) :
    xs.findSome? f = v := by
  cases hfind : xs.findSome? f with
  | none =>
    rw [← hv]
    exact (List.findSome?_eq_none_iff.1 hfind x hx).symm
  | some b =>
    obtain ⟨y, hy, hb⟩ := List.exists_of_findSome?_eq_some hfind
    rcases h y hy with hnone | hsome
    · rw [hnone] at hb
      cases hb
    · rw [← hb, hsome]

theorem findSome?_ite {α β : Type} (p : α → Bool) (b : Bool) (f : α → β) (xs : List α) :
    (xs.findSome? fun x => if p x && b then some (f x) else none) =
      if b then (xs.find? p).map f else none := by
  cases b with
  | false => simp
  | true =>
    induction xs with
    | nil => rfl
    | cons x xs ih =>
      rw [List.findSome?_cons, List.find?_cons, ih]
      cases p x <;> simp

section Targets

variable (c : Converter) (enums flags : List EnumDef) (casts : Casts) (m : Method)

def takesNumber : Bool := m.paramTypes.head?.any fun type => (c.carrier type false).isNumber

def setterTarget? : Option String :=
  if m.params.length == 1 && takesNumber c m then
    (enums.find? fun d => m.name == "Set" ++ d.simpleName).map (·.tsName)
  else none

def flagTarget? : Option String :=
  if takesNumber c m then (flags.find? fun d => m.name == d.methodName).map (·.tsName) else none

/-- The type for the parameter at a position: that of its cast, or else, for the first parameter,
that of the enumeration it sets or of the flags it takes. -/
def paramTarget? (i : Int) : Option String :=
  (castTarget? c m casts i).or
    (if i = 0 then (setterTarget? c enums m).or (flagTarget? c flags m) else none)

def getterTarget? : Option String :=
  (enums.find? fun d => m.name == "Get" ++ d.simpleName).map (·.tsName)

/-- The type for the result: that of the enumeration it gets, if the method has no parameters and
one of the methods with its key returns a number. -/
def returnTarget? (methods : List Method) : Option String :=
  if m.params.isEmpty
      && methods.any fun m' => m'.key == m.key && (c.carrier m'.returnType true).isNumber then
    getterTarget? enums m
  else none

-- a method that returns a handle has the target of one with its key that returns a number
example : returnTarget? Converter.executive [Converter.trimMode]
    ⟨"GetTrimMode", "FGTrim*", [], .empty⟩ [⟨"GetTrimMode", "int", [], .empty⟩] =
      some "TrimMode" := by decide +kernel

theorem firstOffer_eq (applies : Bool) (d : EnumDef) :
    firstOffer c m applies d =
      if applies && takesNumber c m then [⟨m.key, 0, d.tsName⟩] else [] := by
  rw [firstOffer, takesNumber, Method.paramTypes]
  cases m.params with
  | nil => simp
  | cons p rest => simp

theorem first?_firstOffer (applies : Bool) (d : EnumDef) :
    TypeEntry.first? (firstOffer c m applies d) m.key 0 =
      if applies && takesNumber c m then some d.tsName else none := by
  rw [firstOffer_eq]
  split
  · simp [TypeEntry.first?, TypeEntry.isAt]
  · rfl

theorem first?_nameOffers (i : Int) :
    TypeEntry.first? (nameOffers c m enums flags) m.key i =
      if i = 0 then (setterTarget? c enums m).or (flagTarget? c flags m) else none := by
  by_cases hi : i = 0
  · subst hi
    have hsetter : (enums.findSome? fun d => TypeEntry.first? (setterOffer c m d) m.key 0) =
        setterTarget? c enums m := by
      simp only [setterOffer, first?_firstOffer]
      rw [setterTarget?, ← findSome?_ite]
      congr 1
      funext d
      rw [Bool.and_comm (m.params.length == 1), Bool.and_assoc]
    have hflag : (flags.findSome? fun d => TypeEntry.first? (flagOffer c m d) m.key 0) =
        flagTarget? c flags m := by
      simp only [flagOffer, first?_firstOffer]
      rw [flagTarget?, ← findSome?_ite]
    rw [nameOffers, TypeEntry.first?_append, TypeEntry.first?_flatMap, TypeEntry.first?_flatMap,
      hsetter, hflag, if_pos rfl]
  · rw [first?_nameOffers_of_ne_zero c enums flags m m.key hi, if_neg hi]

variable {m} {m' : Method}

theorem takesNumber_congr
    (h : m.paramTypes.map Spelling.normalize = m'.paramTypes.map Spelling.normalize) :
    takesNumber c m = takesNumber c m' := by
  have hhead := congrArg List.head? h
  rw [List.head?_map, List.head?_map] at hhead
  rw [takesNumber, takesNumber]
  cases ht : m.paramTypes.head? <;> cases ht' : m'.paramTypes.head? <;>
    simp only [ht, ht', Option.map_none, Option.map_some, reduceCtorEq, Option.some.injEq] at hhead
  · rfl
  · rw [Option.any_some, Option.any_some, c.carrier_congr hhead]

theorem offers_congr (hm : m.Readable) (hm' : m'.Readable) (h : m.key = m'.key) :
    offers c m enums flags casts = offers c m' enums flags casts := by
  obtain ⟨hname, htypes⟩ := Signature.eq_of_key_eq hm hm' h
  have hlength : m.params.length = m'.params.length := by
    simpa [Method.paramTypes] using congrArg List.length htypes
  have harity : m.arityKey = m'.arityKey := by
    rw [Method.arityKey, Method.arityKey, hname, hlength]
  have hcasts : casts.forMethod m = casts.forMethod m' := by
    rw [Casts.forMethod, Casts.forMethod, h, harity]
  have hoffer : castOffer c m = castOffer c m' := by
    funext cast
    rw [castOffer, castOffer, h]
  have hfirst : firstOffer c m = firstOffer c m' := by
    funext applies d
    rw [firstOffer_eq, firstOffer_eq, h, takesNumber_congr c htypes]
  have hsetter : setterOffer c m = setterOffer c m' := by
    funext d
    rw [setterOffer, setterOffer, hfirst, hlength, hname]
  have hflag : flagOffer c m = flagOffer c m' := by
    funext d
    rw [flagOffer, flagOffer, hfirst, hname]
  rw [offers, offers, nameOffers, nameOffers, hcasts, hoffer, hsetter, hflag]

end Targets

variable (c : Converter) (enums flags : List EnumDef) {casts : Casts} {methods : List Method}

theorem getAt?_build_of_readable (hcasts : casts.Distinct) (h : ∀ m ∈ methods, m.Readable)
    {m : Method} (hm : m ∈ methods) (i : Int) :
    (build c enums flags casts methods).params.getAt? m.key i =
      paramTarget? c enums flags casts m i := by
  have hagree : ∀ m' ∈ methods, TypeEntry.first? (offers c m' enums flags casts) m.key i = none ∨
      TypeEntry.first? (offers c m' enums flags casts) m.key i =
        TypeEntry.first? (offers c m enums flags casts) m.key i := by
    intro m' hm'
    by_cases hkey : m'.key = m.key
    · right
      rw [offers_congr c enums flags casts (h m' hm') (h m hm) hkey]
    · left
      exact first?_offers_of_ne c enums flags casts hkey i
  rw [getAt?_build, findSome?_of_agree hagree hm rfl,
    first?_offers c m enums flags (fun _ => hcasts.nodup_keys) i, first?_nameOffers, paramTarget?]

def getterOffer? (m : Method) (d : EnumDef) : Option String :=
  if m.name == "Get" ++ d.simpleName && (m.params.isEmpty && (c.carrier m.returnType true).isNumber)
  then some d.tsName
  else none

theorem returns_addCast (key : String) (o : Overrides) (cast : Int × String) :
    (addCast c key o cast).returns = o.returns := by
  rw [addCast]
  split <;> rfl

theorem returns_addFlags (m : Method) (o : Overrides) (d : EnumDef) :
    (addFlags c m o d).returns = o.returns := by
  rw [addFlags]
  split
  · split <;> rfl
  · rfl

theorem get?_returns_addAccessor (m : Method) (o : Overrides) (d : EnumDef) (key : String) :
    (addAccessor c m o d).returns.get? key =
      (o.returns.get? key).or (if m.key = key then getterOffer? c m d else none) := by
  have hset : ∀ o' : Overrides, o'.returns = o.returns →
      (if m.name == "Get" ++ d.simpleName && m.params.isEmpty
        && (c.carrier m.returnType true).isNumber then o'.setReturn m.key d.tsName
      else o').returns.get? key =
        (o.returns.get? key).or (if m.key = key then getterOffer? c m d else none) := by
    intro o' ho'
    rw [getterOffer?, ← Bool.and_assoc]
    split
    · rw [setReturn, Table.get?_insertNew, ho']
      simp only [eq_comm]
    · simp [ho']
  rw [addAccessor]
  apply hset
  split
  · split <;> rfl
  · rfl

theorem returns_foldl {α : Type} {step : Overrides → α → Overrides}
    (hstep : ∀ o x, (step o x).returns = o.returns) (xs : List α) (o : Overrides) :
    (xs.foldl step o).returns = o.returns := by
  induction xs generalizing o with
  | nil => rfl
  | cons x xs ih => rw [List.foldl_cons, ih, hstep]

theorem get?_returns_foldl {α : Type} {step : Overrides → α → Overrides}
    {offer : α → String → Option String}
    (hstep : ∀ o x key, (step o x).returns.get? key = (o.returns.get? key).or (offer x key))
    (xs : List α) (o : Overrides) (key : String) :
    (xs.foldl step o).returns.get? key =
      (o.returns.get? key).or (xs.findSome? fun x => offer x key) := by
  induction xs generalizing o with
  | nil => simp
  | cons x xs ih =>
    rw [List.foldl_cons, ih, hstep, Option.or_assoc, List.findSome?_cons]
    cases offer x key <;> rfl

theorem findSome?_getterOffer? (m : Method) :
    enums.findSome? (getterOffer? c m) =
      if m.params.isEmpty && (c.carrier m.returnType true).isNumber then getterTarget? enums m
      else none :=
  findSome?_ite _ _ _ _

theorem get?_returns_addMethod (o : Overrides) (m : Method) (key : String) :
    (addMethod c enums flags casts o m).returns.get? key =
      (o.returns.get? key).or
        (if m.key = key then enums.findSome? (getterOffer? c m) else none) := by
  rw [addMethod, returns_foldl (returns_addFlags c m),
    get?_returns_foldl (fun o d key => get?_returns_addAccessor c m o d key),
    returns_foldl (returns_addCast c m.key)]
  congr 1
  split <;> simp

theorem get?_returns_build (methods : List Method) (key : String) :
    (build c enums flags casts methods).returns.get? key =
      methods.findSome? fun m =>
        if m.key = key then enums.findSome? (getterOffer? c m) else none := by
  rw [build, get?_returns_foldl (get?_returns_addMethod c enums flags)]
  rfl

theorem get?_returns_build_of_readable (h : ∀ m ∈ methods, m.Readable) {m : Method}
    (hm : m ∈ methods) : (build c enums flags casts methods).returns.get? m.key =
      returnTarget? c enums m methods := by
  have hoffer : ∀ m' ∈ methods, m'.key = m.key → enums.findSome? (getterOffer? c m') =
      if m.params.isEmpty && (c.carrier m'.returnType true).isNumber then getterTarget? enums m
      else none := by
    intro m' hm' hkey
    obtain ⟨hname, htypes⟩ := Signature.eq_of_key_eq (h m' hm') (h m hm) hkey
    have hlength : m'.params.length = m.params.length := by
      simpa [Method.paramTypes] using congrArg List.length htypes
    have hempty : m'.params.isEmpty = m.params.isEmpty := by
      rw [Bool.eq_iff_iff, List.isEmpty_iff, List.isEmpty_iff, ← List.length_eq_zero_iff, hlength,
        List.length_eq_zero_iff]
    rw [findSome?_getterOffer?, hempty, getterTarget?, getterTarget?, hname]
  rw [get?_returns_build, returnTarget?]
  split
  · next hnumber =>
    obtain ⟨hempty, hany⟩ := Bool.and_eq_true_iff.1 hnumber
    obtain ⟨m₁, hm₁, hreturns⟩ := List.any_eq_true.1 hany
    obtain ⟨hkey, hreturns⟩ := Bool.and_eq_true_iff.1 hreturns
    have hkey := eq_of_beq hkey
    apply findSome?_of_agree _ hm₁
    · rw [if_pos hkey, hoffer m₁ hm₁ hkey, hempty, hreturns]
      rfl
    · intro m' hm'
      by_cases hkey' : m'.key = m.key
      · rw [if_pos hkey', hoffer m' hm' hkey']
        split
        · exact .inr rfl
        · exact .inl rfl
      · exact .inl (if_neg hkey')
  · next hnumber =>
    rw [List.findSome?_eq_none_iff]
    intro m' hm'
    split
    · next hkey =>
      rw [hoffer m' hm' hkey, if_neg]
      intro hboth
      obtain ⟨hempty, hreturns⟩ := Bool.and_eq_true_iff.1 hboth
      apply hnumber
      rw [hempty, Bool.true_and, List.any_eq_true]
      exact ⟨m', hm', by rw [hkey, hreturns]; simp⟩
    · rfl

variable (casts) in
theorem isSome_get?_params_build (methods : List Method) (key : String) :
    ((build c enums flags casts methods).params.get? key).isSome = true ↔
      ∃ m ∈ methods, ∃ e ∈ offers c m enums flags casts, e.key = key := by
  rw [build, params_foldl (params_addMethod c enums flags casts), Table.isSome_get?_enterAll]
  simp only [empty, Table.get?_nil, Option.isSome_none, Bool.false_eq_true, false_or,
    List.mem_flatMap]
  constructor
  · rintro ⟨e, ⟨m, hm, he⟩, hkey⟩
    exact ⟨m, hm, e, he, hkey⟩
  · rintro ⟨m, hm, e, he, hkey⟩
    exact ⟨e, ⟨m, hm, he⟩, hkey⟩

theorem returnTarget?_perm {methods' : List Method} (h : methods'.Perm methods) (m : Method) :
    returnTarget? c enums m methods' = returnTarget? c enums m methods := by
  rw [returnTarget?, returnTarget?, h.any_eq]

theorem params_build_perm (hcasts : casts.Distinct) (h : ∀ m ∈ methods, m.Readable)
    {methods' : List Method} (hperm : methods'.Perm methods) :
    (build c enums flags casts methods').params.Agree
      (build c enums flags casts methods).params := by
  have h' : ∀ m ∈ methods', m.Readable := fun m hm => h m (hperm.mem_iff.1 hm)
  intro key
  constructor
  · rw [Bool.eq_iff_iff, isSome_get?_params_build, isSome_get?_params_build]
    simp only [hperm.mem_iff]
  · intro i
    by_cases hkey : ∃ m ∈ methods, m.key = key
    · obtain ⟨m, hm, rfl⟩ := hkey
      rw [getAt?_build_of_readable c enums flags hcasts h' (hperm.mem_iff.2 hm),
        getAt?_build_of_readable c enums flags hcasts h hm]
    · have hnone : ∀ ms : List Method, (∀ m ∈ ms, m ∈ methods) →
          (build c enums flags casts ms).params.getAt? key i = none := by
        intro ms hms
        rw [getAt?_build, List.findSome?_eq_none_iff]
        intro m hm
        exact first?_offers_of_ne c enums flags casts (fun he => hkey ⟨m, hms m hm, he⟩) i
      rw [hnone methods' fun m hm => hperm.mem_iff.1 hm, hnone methods fun m hm => hm]

theorem returns_build_perm (h : ∀ m ∈ methods, m.Readable) {methods' : List Method}
    (hperm : methods'.Perm methods) (key : String) :
    (build c enums flags casts methods').returns.get? key =
      (build c enums flags casts methods).returns.get? key := by
  have h' : ∀ m ∈ methods', m.Readable := fun m hm => h m (hperm.mem_iff.1 hm)
  by_cases hkey : ∃ m ∈ methods, m.key = key
  · obtain ⟨m, hm, rfl⟩ := hkey
    rw [get?_returns_build_of_readable c enums flags h' (hperm.mem_iff.2 hm),
      get?_returns_build_of_readable c enums flags h hm, returnTarget?_perm c enums hperm]
  · have hnone : ∀ ms : List Method, (∀ m ∈ ms, m ∈ methods) →
        (build c enums flags casts ms).returns.get? key = none := by
      intro ms hms
      rw [get?_returns_build, List.findSome?_eq_none_iff]
      intro m hm
      exact if_neg fun he => hkey ⟨m, hms m hm, he⟩
    rw [hnone methods' fun m hm => hperm.mem_iff.1 hm, hnone methods fun m hm => hm]

/-- Each method has the overrides that its own casts, name and types call for, and the order of the
methods makes no difference. -/
theorem build_of_readable (hcasts : casts.Distinct) (h : ∀ m ∈ methods, m.Readable) :
    (∀ m ∈ methods,
      (∀ i, (build c enums flags casts methods).params.getAt? m.key i =
        paramTarget? c enums flags casts m i) ∧
      (build c enums flags casts methods).returns.get? m.key =
        returnTarget? c enums m methods) ∧
    ∀ methods' : List Method, methods'.Perm methods →
      (build c enums flags casts methods').params.Agree
        (build c enums flags casts methods).params ∧
      ∀ key, (build c enums flags casts methods').returns.get? key =
        (build c enums flags casts methods).returns.get? key := by
  constructor
  · intro m hm
    exact ⟨getAt?_build_of_readable c enums flags hcasts h hm,
      get?_returns_build_of_readable c enums flags h hm⟩
  · intro methods' hperm
    exact ⟨params_build_perm c enums flags hcasts h hperm,
      returns_build_perm c enums flags h hperm⟩

def trimAccessors : List Method :=
  [⟨"GetTrimMode", "FGTrim*", [], .empty⟩, ⟨"GetTrimMode", "int", [], .empty⟩,
    ⟨"SetTrimMode", "void", [⟨"mode", "int", none⟩], .empty⟩, Casts.setTrim "int"]

theorem build_of_readable_trimAccessors :
    (∀ m ∈ trimAccessors, m.Readable) ∧ Casts.trimCasts.Distinct ∧
      ∀ methods ∈ [trimAccessors, trimAccessors.reverse],
        (build Converter.executive [Converter.trimMode] [] Casts.trimCasts methods).params.getAt?
          "SetTrimMode(int)" 0 = some "TrimMode" ∧
        (build Converter.executive [Converter.trimMode] [] Casts.trimCasts methods).returns.get?
          "GetTrimMode()" = some "TrimMode" := by
  have hreadable : ∀ m ∈ trimAccessors, m.Readable := by decide +kernel
  have hcasts := Casts.distinct_of_collect Casts.collect_trimOverloads
  obtain ⟨htargets, hperm⟩ :=
    build_of_readable Converter.executive [Converter.trimMode] [] hcasts hreadable
  obtain ⟨hparams, hreturns⟩ := hperm trimAccessors.reverse (List.reverse_perm _)
  have hset : (build Converter.executive [Converter.trimMode] [] Casts.trimCasts
      trimAccessors).params.getAt? "SetTrimMode(int)" 0 = some "TrimMode" :=
    ((htargets ⟨"SetTrimMode", "void", [⟨"mode", "int", none⟩], .empty⟩ (by simp [trimAccessors])).1
      0).trans (by decide +kernel)
  have hget : (build Converter.executive [Converter.trimMode] [] Casts.trimCasts
      trimAccessors).returns.get? "GetTrimMode()" = some "TrimMode" :=
    ((htargets ⟨"GetTrimMode", "FGTrim*", [], .empty⟩ (by simp [trimAccessors])).2).trans
      (by decide +kernel)
  refine ⟨hreadable, hcasts, ?_⟩
  simp only [List.mem_cons, List.not_mem_nil, or_false, forall_eq_or_imp, forall_eq]
  exact ⟨⟨hset, hget⟩, ⟨((hparams _).2 0).trans hset, (hreturns _).trans hget⟩⟩

end Metadata.Overrides

end WasmBindings
