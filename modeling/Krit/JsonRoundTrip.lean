import Krit.JsonText

/-!
# Round trips through JSON

A comparable value has a canonical form, in which the fields of every record stand in the
order of their names.  `value_equal` compares canonical forms, the JSON tree of a value is
that of its canonical form, and `json_decode` yields the canonical form.
-/

namespace Krit

/-! ## Fields in order -/

section Fields

variable {α β : Type}

theorem sortFields_perm (fields : List (String × α)) : (sortFields fields).Perm fields :=
  List.perm_insertionSort _ fields

theorem mem_sortFields {fields : List (String × α)} {field : String × α} :
    field ∈ sortFields fields ↔ field ∈ fields :=
  (sortFields_perm fields).mem_iff

theorem pairwise_sortFields {fields : List (String × α)}
    (hnames : (fields.map Prod.fst).Nodup) :
    (sortFields fields).Pairwise fun left right => left.1 < right.1 := by
  have hsorted : (sortFields fields).Pairwise fun left right => left.1 ≤ right.1 :=
    List.pairwise_insertionSort (fun left right : String × α => left.1 ≤ right.1) fields
  have hdistinct : (sortFields fields).Pairwise fun left right => left.1 ≠ right.1 := by
    refine List.pairwise_map.mp ?_
    exact ((sortFields_perm fields).map Prod.fst).nodup_iff.mpr hnames
  refine List.Pairwise.imp ?_ (hsorted.and hdistinct)
  intro left right hboth
  exact lt_of_le_of_ne hboth.1 hboth.2

/-- Ordered fields are equal if they are the same in any order. -/
theorem eq_of_perm_of_ordered {left right : List (String × α)}
    (hleft : left.Pairwise fun first second => first.1 < second.1)
    (hright : right.Pairwise fun first second => first.1 < second.1) (hperm : left.Perm right) :
    left = right := by
  refine hperm.eq_of_pairwise ?_ hleft hright
  intro first second _ _ hless hgreater
  exact absurd (hless.trans hgreater) (lt_irrefl _)

theorem sortFields_eq_self {fields : List (String × α)}
    (hordered : fields.Pairwise fun left right => left.1 < right.1) :
    sortFields fields = fields := by
  have hnames : (fields.map Prod.fst).Nodup := by
    refine List.pairwise_map.mpr (hordered.imp ?_)
    intro left right hless
    exact ne_of_lt hless
  exact eq_of_perm_of_ordered (pairwise_sortFields hnames) hordered (sortFields_perm fields)

/-- The fields with every value converted. -/
def mapFields (convert : α → β) (fields : List (String × α)) : List (String × β) :=
  fields.map fun field => (field.1, convert field.2)

theorem names_mapFields (convert : α → β) (fields : List (String × α)) :
    (mapFields convert fields).map Prod.fst = fields.map Prod.fst := by
  rw [mapFields, List.map_map]
  rfl

theorem sortFields_mapFields (convert : α → β) {fields : List (String × α)}
    (hnames : (fields.map Prod.fst).Nodup) :
    sortFields (mapFields convert fields) = mapFields convert (sortFields fields) := by
  have hmapped : ((mapFields convert fields).map Prod.fst).Nodup := by
    rw [names_mapFields]
    exact hnames
  refine eq_of_perm_of_ordered (pairwise_sortFields hmapped) ?_ ?_
  · exact List.pairwise_map.mpr (pairwise_sortFields hnames)
  · exact (sortFields_perm _).trans ((sortFields_perm fields).map _).symm

/-- Fields with distinct names are the same in order exactly if they are the same. -/
theorem sortFields_eq_iff {left right : List (String × α)}
    (hleft : (left.map Prod.fst).Nodup) (hright : (right.map Prod.fst).Nodup) :
    sortFields left = sortFields right ↔
      left.length = right.length ∧ ∀ field ∈ left, field ∈ right := by
  constructor
  · intro heq
    have hperm : left.Perm right :=
      (sortFields_perm left).symm.trans (heq ▸ sortFields_perm right)
    exact ⟨hperm.length_eq, fun field hfield => hperm.subset hfield⟩
  · rintro ⟨hlength, hsubset⟩
    have hsub : left.Subperm right := List.subperm_of_subset hleft.of_map hsubset
    have hperm : left.Perm right := hsub.perm_of_length_le (le_of_eq hlength.symm)
    exact eq_of_perm_of_ordered (pairwise_sortFields hleft) (pairwise_sortFields hright)
      ((sortFields_perm left).trans (hperm.trans (sortFields_perm right).symm))

/-- Among distinct names, the field of a name is the one that is found. -/
theorem find?_eq_some_of_mem {fields : List (String × α)} (hnames : (fields.map Prod.fst).Nodup)
    {name : String} {value : α} (hmem : (name, value) ∈ fields) :
    fields.find? (fun field => field.1 == name) = some (name, value) := by
  induction fields with
  | nil => cases hmem
  | cons field rest ih =>
    rw [List.map_cons, List.nodup_cons] at hnames
    rcases List.mem_cons.mp hmem with heq | hrest
    · rw [← heq, List.find?_cons_of_pos (by simp)]
    · have hne : (field.1 == name) = false := by
        rw [beq_eq_false_iff_ne]
        intro heq
        exact hnames.1 (heq ▸ List.mem_map_of_mem hrest)
      rw [List.find?_cons_of_neg (by simp [hne])]
      exact ih hnames.2 hrest

end Fields

/-! ## Canonical forms -/

/-- The values that hold no function and whose records have distinct field names. -/
inductive Value.Comparable : Value → Prop
  | integer (value : ℤ) : Comparable (.integer value)
  | boolean (value : Bool) : Comparable (.boolean value)
  | string (value : String) : Comparable (.string value)
  | unit : Comparable .unit
  | list {elements : List Value} (helements : ∀ element ∈ elements, Comparable element) :
      Comparable (.list elements)
  | record {fields : List (String × Value)} (hnames : (fields.map Prod.fst).Nodup)
      (hfields : ∀ field ∈ fields, Comparable field.2) : Comparable (.record fields)
  | bare (name : VariantName) : Comparable (.variant name none)
  | variant {name : VariantName} {payload : Value} (hpayload : Comparable payload) :
      Comparable (.variant name (some payload))

mutual

/-- The value with the fields of its records in order. -/
def Value.canonical : Value → Value
  | .list elements => .list (Value.canonicalAll elements)
  | .record fields => .record (sortFields (Value.canonicalFields fields))
  | .variant name (some payload) => .variant name (some payload.canonical)
  | value => value

def Value.canonicalAll : List Value → List Value
  | [] => []
  | value :: rest => value.canonical :: Value.canonicalAll rest

def Value.canonicalFields : List (String × Value) → List (String × Value)
  | [] => []
  | (name, value) :: rest => (name, value.canonical) :: Value.canonicalFields rest

end

theorem Value.canonicalAll_eq (elements : List Value) :
    Value.canonicalAll elements = elements.map Value.canonical := by
  induction elements with
  | nil => rfl
  | cons value rest ih => rw [Value.canonicalAll, ih, List.map_cons]

theorem Value.canonicalFields_eq (fields : List (String × Value)) :
    Value.canonicalFields fields = mapFields Value.canonical fields := by
  induction fields with
  | nil => rfl
  | cons field rest ih =>
    obtain ⟨name, value⟩ := field
    rw [Value.canonicalFields, ih]
    rfl

@[simp] theorem Value.canonical_list (elements : List Value) :
    (Value.list elements).canonical = .list (elements.map Value.canonical) := by
  rw [Value.canonical, Value.canonicalAll_eq]

@[simp] theorem Value.canonical_record (fields : List (String × Value)) :
    (Value.record fields).canonical = .record (sortFields (mapFields Value.canonical fields)) := by
  rw [Value.canonical, Value.canonicalFields_eq]

/-! ## Equality -/

theorem Value.anyFunction_eq_false {elements : List Value} :
    Value.anyFunction elements = false ↔
      ∀ element ∈ elements, element.containsFunction = false := by
  induction elements with
  | nil => simp [Value.anyFunction]
  | cons value rest ih => simp [Value.anyFunction, ih]

theorem Value.anyFieldFunction_eq_false {fields : List (String × Value)} :
    Value.anyFieldFunction fields = false ↔ ∀ field ∈ fields, field.2.containsFunction = false := by
  induction fields with
  | nil => simp [Value.anyFieldFunction]
  | cons field rest ih => simp [Value.anyFieldFunction, ih]

theorem Value.Comparable.containsFunction {value : Value} (hvalue : value.Comparable) :
    value.containsFunction = false := by
  induction hvalue with
  | list helements ih =>
    rw [Value.containsFunction]
    exact Value.anyFunction_eq_false.mpr ih
  | record hnames hfields ih =>
    rw [Value.containsFunction]
    exact Value.anyFieldFunction_eq_false.mpr ih
  | variant hpayload ih =>
    rw [Value.containsFunction]
    exact ih
  | _ => rfl

/-- The comparison decides whether the canonical forms are equal. -/
def Decides (left : Value) (span : Span) : Prop :=
  ∀ right : Value, right.Comparable →
    ∃ equal, valueEqual left right span = .ok equal ∧
      (equal = true ↔ left.canonical = right.canonical)

section Loops

variable {span : Span}

theorem elementsEqual_spec {lefts : List Value} (hlefts : ∀ left ∈ lefts, Decides left span) :
    ∀ {rights : List Value}, (∀ right ∈ rights, right.Comparable) →
      lefts.length = rights.length →
        ∃ equal, elementsEqual lefts rights span = .ok equal ∧
          (equal = true ↔ lefts.map Value.canonical = rights.map Value.canonical) := by
  induction lefts with
  | nil =>
    intro rights _ hlength
    rw [List.length_nil] at hlength
    rw [List.length_eq_zero_iff.mp hlength.symm]
    exact ⟨true, rfl, by simp⟩
  | cons left lefts ih =>
    intro rights hrights hlength
    cases rights with
    | nil => cases hlength
    | cons right rights =>
      obtain ⟨equal, hequal, hiff⟩ :=
        hlefts left List.mem_cons_self right (hrights right List.mem_cons_self)
      obtain ⟨more, hmore, hmoreIff⟩ := ih
        (fun other hother => hlefts other (List.mem_cons_of_mem _ hother))
        (fun other hother => hrights other (List.mem_cons_of_mem _ hother))
        (Nat.succ.inj hlength)
      cases equal with
      | true =>
        refine ⟨more, ?_, ?_⟩
        · rw [elementsEqual, hequal]
          exact hmore
        · rw [hmoreIff, List.map_cons, List.map_cons, hiff.mp rfl, List.cons.injEq]
          simp
      | false =>
        refine ⟨false, ?_, ?_⟩
        · rw [elementsEqual, hequal]
          rfl
        · rw [List.map_cons, List.map_cons, List.cons.injEq, ← hiff]
          simp

theorem mem_mapFields {α β : Type} {convert : α → β} {fields : List (String × α)} {name : String}
    {found : β} :
    (name, found) ∈ mapFields convert fields ↔
      ∃ value, (name, value) ∈ fields ∧ convert value = found := by
  simp [mapFields]

theorem fieldsEqual_spec {lefts : List (String × Value)}
    (hlefts : ∀ left ∈ lefts, Decides left.2 span) {rights : List (String × Value)}
    (hnames : (rights.map Prod.fst).Nodup) (hrights : ∀ right ∈ rights, right.2.Comparable) :
    ∃ equal, fieldsEqual lefts rights span = .ok equal ∧
      (equal = true ↔ ∀ field ∈ mapFields Value.canonical lefts,
        field ∈ mapFields Value.canonical rights) := by
  induction lefts with
  | nil => exact ⟨true, rfl, by simp [mapFields]⟩
  | cons left lefts ih =>
    obtain ⟨name, value⟩ := left
    have hcons : mapFields Value.canonical ((name, value) :: lefts) =
        (name, value.canonical) :: mapFields Value.canonical lefts := rfl
    rw [hcons, List.forall_mem_cons, mem_mapFields]
    obtain ⟨more, hmore, hmoreIff⟩ := ih
      (fun other hother => hlefts other (List.mem_cons_of_mem _ hother))
    rw [fieldsEqual]
    cases hfind : rights.find? (fun field => field.1 == name) with
    | none =>
      refine ⟨false, rfl, ?_⟩
      constructor
      · intro hfalse
        cases hfalse
      · rintro ⟨⟨found, hfound, -⟩, -⟩
        rw [find?_eq_some_of_mem hnames hfound] at hfind
        cases hfind
    | some field =>
      obtain ⟨other, right⟩ := field
      have hother : other = name := by simpa using List.find?_some hfind
      subst hother
      have hmem := List.mem_of_find?_eq_some hfind
      obtain ⟨equal, hequal, hiff⟩ := hlefts _ List.mem_cons_self right (hrights _ hmem)
      -- the name is found once, so the values are equal exactly if some are
      have hfound : (∃ found, (other, found) ∈ rights ∧ found.canonical = value.canonical) ↔
          equal = true := by
        rw [hiff]
        constructor
        · rintro ⟨found, hfound, hsame⟩
          rw [find?_eq_some_of_mem hnames hfound, Option.some.injEq, Prod.mk.injEq] at hfind
          rw [← hfind.2, hsame]
        · intro hsame
          exact ⟨right, hmem, hsame.symm⟩
      rw [hfound, ← hmoreIff]
      cases equal with
      | true =>
        refine ⟨more, ?_, by simp⟩
        simp only [hequal]
        exact hmore
      | false =>
        refine ⟨false, ?_, by simp⟩
        simp only [hequal]
        rfl

end Loops

/-- Values without functions pass the guard. -/
theorem Value.Comparable.guard {left right : Value} (hleft : left.Comparable)
    (hright : right.Comparable) :
    ¬ (left.containsFunction || right.containsFunction) = true := by
  rw [hleft.containsFunction, hright.containsFunction]
  exact Bool.false_ne_true

theorem decides {left : Value} (hleft : left.Comparable) (span : Span) : Decides left span := by
  induction hleft with
  | list helements ih =>
    rename_i lefts
    intro right hright
    have hguard := (Value.Comparable.list helements).guard hright
    rw [valueEqual.eq_def, if_neg hguard]
    cases hright with
    | list hrights =>
      rename_i rights
      rw [Value.canonical_list, Value.canonical_list, Value.list.injEq]
      by_cases hlength : lefts.length = rights.length
      · simp only [hlength, ne_eq, not_true_eq_false, if_false]
        exact elementsEqual_spec ih hrights hlength
      · refine ⟨false, if_pos hlength, ?_⟩
        constructor
        · intro hfalse
          cases hfalse
        · intro hsame
          exact absurd (by simpa using congrArg List.length hsame) hlength
    | _ => exact ⟨false, rfl, by simp [Value.canonical]⟩
  | record hnames hfields ih =>
    rename_i lefts
    intro right hright
    have hguard := (Value.Comparable.record hnames hfields).guard hright
    rw [valueEqual.eq_def, if_neg hguard]
    cases hright with
    | record hrightNames hrights =>
      rename_i rights
      rw [Value.canonical_record, Value.canonical_record, Value.record.injEq,
        sortFields_eq_iff (by rwa [names_mapFields]) (by rwa [names_mapFields])]
      simp only [mapFields, List.length_map]
      by_cases hlength : lefts.length = rights.length
      · simp only [hlength, ne_eq, not_true_eq_false, if_false, true_and]
        exact fieldsEqual_spec ih hrightNames hrights
      · exact ⟨false, if_pos hlength, by simp [hlength]⟩
    | _ => exact ⟨false, rfl, by simp [Value.canonical]⟩
  | variant hpayload ih =>
    rename_i name payload
    intro right hright
    have hguard := (@Value.Comparable.variant name _ hpayload).guard hright
    rw [valueEqual.eq_def, if_neg hguard]
    cases hright with
    | variant hother =>
      rename_i otherName other
      obtain ⟨equal, hequal, hiff⟩ := ih other hother
      by_cases hname : name = otherName
      · refine ⟨equal, ?_, by simp [Value.canonical, hname, hiff]⟩
        simp only [hname, ne_eq, not_true_eq_false, if_false]
        exact hequal
      · exact ⟨false, if_pos hname, by simp [Value.canonical, hname]⟩
    | bare otherName =>
      by_cases hname : name = otherName
      · exact ⟨false, by simp [hname], by simp [Value.canonical]⟩
      · exact ⟨false, if_pos hname, by simp [Value.canonical]⟩
    | _ => exact ⟨false, rfl, by simp [Value.canonical]⟩
  | bare name =>
    intro right hright
    have hguard := (Value.Comparable.bare name).guard hright
    rw [valueEqual.eq_def, if_neg hguard]
    cases hright with
    | variant hother =>
      rename_i otherName other
      by_cases hname : name = otherName
      · exact ⟨false, by simp [hname], by simp [Value.canonical]⟩
      · exact ⟨false, if_pos hname, by simp [Value.canonical]⟩
    | bare otherName =>
      by_cases hname : name = otherName
      · exact ⟨true, by simp [hname], by simp [Value.canonical, hname]⟩
      · exact ⟨false, if_pos hname, by simp [Value.canonical, hname]⟩
    | _ => exact ⟨false, rfl, by simp [Value.canonical]⟩
  | integer left =>
    intro right hright
    have hguard := (Value.Comparable.integer left).guard hright
    rw [valueEqual.eq_def, if_neg hguard]
    cases hright with
    | integer right => exact ⟨left == right, rfl, by simp [Value.canonical]⟩
    | _ => exact ⟨false, rfl, by simp [Value.canonical]⟩
  | boolean left =>
    intro right hright
    have hguard := (Value.Comparable.boolean left).guard hright
    rw [valueEqual.eq_def, if_neg hguard]
    cases hright with
    | boolean right => exact ⟨left == right, rfl, by simp [Value.canonical]⟩
    | _ => exact ⟨false, rfl, by simp [Value.canonical]⟩
  | string left =>
    intro right hright
    have hguard := (Value.Comparable.string left).guard hright
    rw [valueEqual.eq_def, if_neg hguard]
    cases hright with
    | string right => exact ⟨left == right, rfl, by simp [Value.canonical]⟩
    | _ => exact ⟨false, rfl, by simp [Value.canonical]⟩
  | unit =>
    intro right hright
    have hguard := Value.Comparable.unit.guard hright
    rw [valueEqual.eq_def, if_neg hguard]
    cases hright with
    | unit => exact ⟨true, rfl, by simp⟩
    | _ => exact ⟨false, rfl, by simp [Value.canonical]⟩

/-! ## Canonical forms are canonical -/

theorem mapFields_mapFields {α β γ : Type} (first : α → β) (second : β → γ)
    (fields : List (String × α)) :
    mapFields second (mapFields first fields) =
      mapFields (fun value => second (first value)) fields := by
  rw [mapFields, mapFields, List.map_map]
  rfl

theorem mapFields_congr {α β : Type} {first second : α → β} {fields : List (String × α)}
    (hsame : ∀ field ∈ fields, first field.2 = second field.2) :
    mapFields first fields = mapFields second fields := by
  refine List.map_congr_left ?_
  intro field hfield
  rw [hsame field hfield]

theorem Value.Comparable.canonical {value : Value} (hvalue : value.Comparable) :
    value.canonical.Comparable ∧ value.canonical.canonical = value.canonical := by
  induction hvalue with
  | list helements ih =>
    rw [Value.canonical_list, Value.canonical_list, List.map_map, Value.list.injEq]
    refine ⟨.list ?_, List.map_congr_left fun element helement => (ih element helement).2⟩
    intro element helement
    obtain ⟨other, hother, rfl⟩ := List.mem_map.mp helement
    exact (ih other hother).1
  | record hnames hfields ih =>
    rename_i fields
    have hmapped : ((mapFields Value.canonical fields).map Prod.fst).Nodup := by
      rwa [names_mapFields]
    have hordered := pairwise_sortFields hmapped
    rw [Value.canonical_record]
    constructor
    · refine .record ?_ ?_
      · exact ((sortFields_perm _).map Prod.fst).nodup_iff.mpr hmapped
      · intro field hfield
        obtain ⟨other, hother, rfl⟩ := List.mem_map.mp (mem_sortFields.mp hfield)
        exact (ih other hother).1
    · rw [Value.canonical_record, ← sortFields_mapFields _ hmapped, mapFields_mapFields,
        mapFields_congr fun field hfield => (ih field hfield).2, sortFields_eq_self hordered]
  | variant hpayload ih =>
    rw [Value.canonical, Value.canonical, ih.2]
    exact ⟨.variant ih.1, rfl⟩
  | bare name => exact ⟨.bare name, rfl⟩
  | integer value => exact ⟨.integer value, rfl⟩
  | boolean value => exact ⟨.boolean value, rfl⟩
  | string value => exact ⟨.string value, rfl⟩
  | unit => exact ⟨.unit, rfl⟩

theorem Value.depthOfAll_le {elements : List Value} {bound : ℕ} :
    Value.depthOfAll elements ≤ bound ↔ ∀ element ∈ elements, element.depth ≤ bound := by
  induction elements with
  | nil => simp [Value.depthOfAll]
  | cons value rest ih => simp [Value.depthOfAll, ih]

theorem Value.depthOfFields_le {fields : List (String × Value)} {bound : ℕ} :
    Value.depthOfFields fields ≤ bound ↔ ∀ field ∈ fields, field.2.depth ≤ bound := by
  induction fields with
  | nil => simp [Value.depthOfFields]
  | cons field rest ih => simp [Value.depthOfFields, ih]

theorem Value.depth_of_mem {elements : List Value} {element : Value}
    (helement : element ∈ elements) :
    element.depth + 1 ≤ (Value.list elements).depth := by
  have hle := Value.depthOfAll_le.mp le_rfl element helement
  rw [Value.depth]
  omega

theorem Value.depth_of_mem_fields {fields : List (String × Value)} {field : String × Value}
    (hfield : field ∈ fields) : field.2.depth + 1 ≤ (Value.record fields).depth := by
  have hle := Value.depthOfFields_le.mp le_rfl field hfield
  rw [Value.depth]
  omega

theorem Value.Comparable.depth_canonical_le {value : Value} (hvalue : value.Comparable) :
    value.canonical.depth ≤ value.depth := by
  induction hvalue with
  | list helements ih =>
    rw [Value.canonical_list, Value.depth, Value.depth]
    refine Nat.add_le_add_left (Value.depthOfAll_le.mpr ?_) 1
    intro element helement
    obtain ⟨other, hother, rfl⟩ := List.mem_map.mp helement
    exact (ih other hother).trans (Value.depthOfAll_le.mp le_rfl other hother)
  | record hnames hfields ih =>
    rw [Value.canonical_record, Value.depth, Value.depth]
    refine Nat.add_le_add_left (Value.depthOfFields_le.mpr ?_) 1
    intro field hfield
    obtain ⟨other, hother, rfl⟩ := List.mem_map.mp (mem_sortFields.mp hfield)
    exact (ih other hother).trans (Value.depthOfFields_le.mp le_rfl other hother)
  | variant hpayload ih =>
    rw [Value.canonical, Value.depth, Value.depth]
    omega
  | _ => exact le_rfl

/-! ## JSON trees of values -/

mutual

/-- The JSON tree of a value without functions. -/
def Value.toJson : Value → Json
  | .integer value => .number (.ofI64 value)
  | .boolean value => .bool value
  | .string value => .string value
  | .list elements => .array (Value.toJsonAll elements)
  | .record fields => .object (sortFields (Value.toJsonFields fields))
  | .variant name none => .object [(name.asStr, .null)]
  | .variant name (some payload) => .object [(name.asStr, payload.toJson)]
  | _ => .null

def Value.toJsonAll : List Value → List Json
  | [] => []
  | value :: rest => value.toJson :: Value.toJsonAll rest

def Value.toJsonFields : List (String × Value) → List (String × Json)
  | [] => []
  | (name, value) :: rest => (name, value.toJson) :: Value.toJsonFields rest

end

theorem Value.toJsonAll_eq (elements : List Value) :
    Value.toJsonAll elements = elements.map Value.toJson := by
  induction elements with
  | nil => rfl
  | cons value rest ih => rw [Value.toJsonAll, ih, List.map_cons]

theorem Value.toJsonFields_eq (fields : List (String × Value)) :
    Value.toJsonFields fields = mapFields Value.toJson fields := by
  induction fields with
  | nil => rfl
  | cons field rest ih =>
    obtain ⟨name, value⟩ := field
    rw [Value.toJsonFields, ih]
    rfl

@[simp] theorem Value.toJson_list (elements : List Value) :
    (Value.list elements).toJson = .array (elements.map Value.toJson) := by
  rw [Value.toJson, Value.toJsonAll_eq]

@[simp] theorem Value.toJson_record (fields : List (String × Value)) :
    (Value.record fields).toJson = .object (sortFields (mapFields Value.toJson fields)) := by
  rw [Value.toJson, Value.toJsonFields_eq]

/-- The tree of a value is that of its canonical form. -/
theorem Value.Comparable.toJson_canonical {value : Value} (hvalue : value.Comparable) :
    value.canonical.toJson = value.toJson := by
  induction hvalue with
  | list helements ih =>
    rw [Value.canonical_list, Value.toJson_list, Value.toJson_list, List.map_map]
    exact congrArg _ (List.map_congr_left ih)
  | record hnames hfields ih =>
    rename_i fields
    have hmapped : ((mapFields Value.canonical fields).map Prod.fst).Nodup := by
      rwa [names_mapFields]
    have hordered : ((mapFields Value.toJson fields).map Prod.fst).Nodup := by
      rwa [names_mapFields]
    rw [Value.canonical_record, Value.toJson_record, Value.toJson_record,
      ← sortFields_mapFields _ hmapped, mapFields_mapFields, mapFields_congr ih,
      sortFields_eq_self (pairwise_sortFields hordered)]
  | variant hpayload ih =>
    rw [Value.canonical, Value.toJson, Value.toJson, ih]
  | _ => rfl

/-! ## Encoding -/

theorem Json.insert_last {object : List (String × Json)} {name : String} (value : Json)
    (hlast : ∀ entry ∈ object, entry.1 < name) :
    Json.insert name value object = object ++ [(name, value)] := by
  induction object with
  | nil => rfl
  | cons entry rest ih =>
    obtain ⟨other, old⟩ := entry
    have hless : other < name := hlast _ List.mem_cons_self
    rw [Json.insert, if_neg (ne_of_gt hless), if_neg (lt_asymm hless),
      ih fun entry hentry => hlast entry (List.mem_cons_of_mem _ hentry)]
    rfl

/-- Ordered entries are inserted one after another. -/
theorem insertFields_ordered {entries : List (String × Json)} :
    ∀ {object : List (String × Json)},
      ((object ++ entries).Pairwise fun left right => left.1 < right.1) →
        insertFields object (mapFields Except.ok entries) = .ok (object ++ entries) := by
  induction entries with
  | nil =>
    intro object _
    rw [List.append_nil]
    rfl
  | cons entry rest ih =>
    intro object hordered
    obtain ⟨name, value⟩ := entry
    have hlast : ∀ other ∈ object, other.1 < name := by
      intro other hother
      exact (List.pairwise_append.mp hordered).2.2 other hother (name, value) List.mem_cons_self
    have hmore := @ih (object ++ [(name, value)]) (by rwa [List.append_assoc])
    rw [List.append_assoc] at hmore
    change insertFields (Json.insert name value object) (mapFields Except.ok rest) = _
    rw [Json.insert_last value hlast]
    exact hmore

theorem elementsToJson_eq {elements : List Value} {span : Span}
    (helements : ∀ element ∈ elements, valueToJson element span = .ok element.toJson) :
    elementsToJson elements span = .ok (elements.map Value.toJson) := by
  induction elements with
  | nil => rfl
  | cons value rest ih =>
    rw [elementsToJson, helements value List.mem_cons_self,
      ih fun element helement => helements element (List.mem_cons_of_mem _ helement)]
    rfl

theorem fieldsToJson_eq (fields : List (String × Value)) (span : Span) :
    fieldsToJson fields span = mapFields (fun value => valueToJson value span) fields := by
  induction fields with
  | nil => rfl
  | cons field rest ih =>
    obtain ⟨name, value⟩ := field
    rw [fieldsToJson, ih]
    rfl

theorem Value.Comparable.valueToJson {value : Value} (hvalue : value.Comparable) (span : Span) :
    Krit.valueToJson value span = .ok value.toJson := by
  induction hvalue with
  | list helements ih =>
    rw [Krit.valueToJson, elementsToJson_eq ih, Value.toJson_list]
    rfl
  | record hnames hfields ih =>
    rename_i fields
    have hmapped : ((mapFields Value.toJson fields).map Prod.fst).Nodup := by
      rwa [names_mapFields]
    have hconverted : mapFields (fun value => Krit.valueToJson value span) fields =
        mapFields Except.ok (mapFields Value.toJson fields) := by
      rw [mapFields_mapFields]
      exact mapFields_congr ih
    have hinserted := @insertFields_ordered (sortFields (mapFields Value.toJson fields)) []
      (pairwise_sortFields hmapped)
    rw [Krit.valueToJson, fieldsToJson_eq, hconverted, sortFields_mapFields _ hmapped, hinserted,
      Value.toJson_record]
    rfl
  | variant hpayload ih =>
    rw [Krit.valueToJson, ih]
    rfl
  | _ => rfl

/-! ## Decoding -/

/-- The names that a record with a single field may not use. -/
def reservedNames : List String := ["Some", "None", "Ok", "Err"]

/-- The values of the evaluator that JSON represents: without functions, with distinct names
in every record, and without a record whose single field has a reserved name. -/
inductive Value.Encodable : Value → Prop
  | integer {value : ℤ} (hvalue : i64Min ≤ value ∧ value ≤ i64Max) : Encodable (.integer value)
  | boolean (value : Bool) : Encodable (.boolean value)
  | string (value : String) : Encodable (.string value)
  | unit : Encodable .unit
  | list {elements : List Value} (helements : ∀ element ∈ elements, Encodable element) :
      Encodable (.list elements)
  | record {fields : List (String × Value)} (hnames : (fields.map Prod.fst).Nodup)
      (hreserved : ∀ name value, fields = [(name, value)] → name ∉ reservedNames)
      (hfields : ∀ field ∈ fields, Encodable field.2) : Encodable (.record fields)
  | none : Encodable (.variant .none none)
  | variant {name : VariantName} {payload : Value} (hname : name.hasPayload = true)
      (hpayload : Encodable payload) : Encodable (.variant name (some payload))

theorem Value.Encodable.comparable {value : Value} (hvalue : value.Encodable) :
    value.Comparable := by
  induction hvalue with
  | integer hvalue => exact .integer _
  | boolean value => exact .boolean value
  | string value => exact .string value
  | unit => exact .unit
  | list helements ih => exact .list ih
  | record hnames hreserved hfields ih => exact .record hnames ih
  | none => exact .bare .none
  | variant hname hpayload ih => exact .variant ih

theorem Value.Encodable.integral {value : Value} (hvalue : value.Encodable) :
    value.toJson.Integral := by
  induction hvalue with
  | integer hvalue =>
    rw [Value.toJson, JsonNumber.ofI64]
    split_ifs with hsign
    · exact .negInt ⟨hvalue.1, hsign⟩
    · refine .posInt ?_
      have hmax : i64Max < 2 ^ 64 := by decide
      omega
  | boolean value => exact .bool value
  | string value => exact .string value
  | unit => exact .null
  | list helements ih =>
    rw [Value.toJson_list]
    refine .array ?_
    intro json hjson
    obtain ⟨element, helement, rfl⟩ := List.mem_map.mp hjson
    exact ih element helement
  | record hnames hreserved hfields ih =>
    rw [Value.toJson_record]
    refine .object (pairwise_sortFields (by rwa [names_mapFields])) ?_
    intro entry hentry
    obtain ⟨field, hfield, rfl⟩ := List.mem_map.mp (mem_sortFields.mp hentry)
    exact ih field hfield
  | none =>
    refine .object (List.pairwise_singleton _ _) ?_
    intro entry hentry
    rw [List.mem_singleton.mp hentry]
    exact .null
  | variant hname hpayload ih =>
    refine .object (List.pairwise_singleton _ _) ?_
    intro entry hentry
    rw [List.mem_singleton.mp hentry]
    exact ih

theorem Value.Encodable.depth_toJson_le {value : Value} (hvalue : value.Encodable) :
    value.toJson.depth ≤ value.depth := by
  induction hvalue with
  | list helements ih =>
    rw [Value.toJson_list, Json.depth, Value.depth]
    refine Nat.add_le_add_left (Json.depthOfAll_le.mpr ?_) 1
    intro json hjson
    obtain ⟨element, helement, rfl⟩ := List.mem_map.mp hjson
    exact (ih element helement).trans (Value.depthOfAll_le.mp le_rfl element helement)
  | record hnames hreserved hfields ih =>
    rw [Value.toJson_record, Json.depth, Value.depth]
    refine Nat.add_le_add_left (Json.depthOfEntries_le.mpr ?_) 1
    intro entry hentry
    obtain ⟨field, hfield, rfl⟩ := List.mem_map.mp (mem_sortFields.mp hentry)
    exact (ih field hfield).trans (Value.depthOfFields_le.mp le_rfl field hfield)
  | variant hname hpayload ih =>
    simp only [Value.toJson, Json.depth, Json.depthOfEntries, Value.depth]
    omega
  | none =>
    simp only [Value.toJson, Json.depth, Json.depthOfEntries, Value.depth]
    omega
  | _ => exact le_rfl

section Decoding

variable {span : Span}

theorem jsonToElements_eq {elements : List Value}
    (helements : ∀ element ∈ elements, jsonToValue element.toJson span = .ok element.canonical) :
    jsonToElements (elements.map Value.toJson) span = .ok (elements.map Value.canonical) := by
  induction elements with
  | nil => rfl
  | cons value rest ih =>
    rw [List.map_cons, jsonToElements, helements value List.mem_cons_self,
      ih fun element helement => helements element (List.mem_cons_of_mem _ helement)]
    rfl

theorem jsonToFields_eq {fields : List (String × Value)}
    (hfields : ∀ field ∈ fields, jsonToValue field.2.toJson span = .ok field.2.canonical) :
    jsonToFields (mapFields Value.toJson fields) span = .ok (mapFields Value.canonical fields) := by
  induction fields with
  | nil => rfl
  | cons field rest ih =>
    have hmore := ih fun field hfield => hfields field (List.mem_cons_of_mem _ hfield)
    have hfirst := hfields field List.mem_cons_self
    change jsonToFields ((field.1, field.2.toJson) :: mapFields Value.toJson rest) span = _
    rw [jsonToFields, hfirst, hmore]
    rfl

theorem variantTag_eq_none {name : String} (hname : name ∉ reservedNames) :
    variantTag name = none := by
  simp only [reservedNames, List.mem_cons, List.not_mem_nil, or_false, not_or] at hname
  rw [variantTag, if_neg hname.1, if_neg hname.2.1, if_neg hname.2.2.1, if_neg hname.2.2.2]

/-- An object that is no variant decodes as a record. -/
theorem jsonToValue_object {entries : List (String × Json)}
    (hreserved : ∀ name json, entries = [(name, json)] → name ∉ reservedNames) :
    jsonToValue (.object entries) span = (do
      let fields ← jsonToFields entries span
      Value.recordValue (sortFields fields) span) := by
  match entries, hreserved with
  | [], _ => rw [jsonToValue]; simp
  | [(name, json)], hreserved =>
    rw [jsonToValue, variantTag_eq_none (hreserved name json rfl), jsonToFields, jsonToFields]
    cases jsonToValue json span with
    | ok value => rfl
    | error failure => rfl
  | first :: second :: rest, _ => rw [jsonToValue]; simp

theorem Value.Encodable.jsonToValue {value : Value} (hvalue : value.Encodable)
    (hdepth : value.depth ≤ maxValueDepth) (span : Span) :
    Krit.jsonToValue value.toJson span = .ok value.canonical := by
  induction hvalue with
  | integer hvalue =>
    rw [Value.toJson, Krit.jsonToValue, JsonNumber.asI64_ofI64 hvalue.2]
    rfl
  | list helements ih =>
    rename_i elements
    have hlimit := (Value.Comparable.list fun element helement =>
      (helements element helement).comparable).depth_canonical_le
    rw [Value.canonical_list] at hlimit
    have hvalues : ∀ element ∈ elements,
        Krit.jsonToValue element.toJson span = .ok element.canonical := by
      intro element helement
      have hbelow := Value.depth_of_mem helement
      exact ih element helement (by omega)
    rw [Value.toJson_list, Krit.jsonToValue, jsonToElements_eq hvalues, Value.canonical_list]
    exact if_neg (not_lt_of_ge (hlimit.trans hdepth))
  | record hnames hreserved hfields ih =>
    rename_i fields
    have hlimit := (Value.Comparable.record hnames fun field hfield =>
      (hfields field hfield).comparable).depth_canonical_le
    rw [Value.canonical_record] at hlimit
    have hvalues : ∀ field ∈ sortFields fields,
        Krit.jsonToValue field.2.toJson span = .ok field.2.canonical := by
      intro field hfield
      have hmem := mem_sortFields.mp hfield
      have hbelow := Value.depth_of_mem_fields hmem
      exact ih field hmem (by omega)
    have hobject : ∀ name json, sortFields (mapFields Value.toJson fields) = [(name, json)] →
        name ∉ reservedNames := by
      intro name json hsingle
      have hperm := sortFields_perm (mapFields Value.toJson fields)
      rw [hsingle] at hperm
      have hmapped := List.singleton_perm.mp hperm
      rw [mapFields, eq_comm, List.map_eq_singleton_iff] at hmapped
      obtain ⟨field, hfield, hname⟩ := hmapped
      rw [← (Prod.mk.inj hname).1]
      exact hreserved field.1 field.2 hfield
    have hmapped : ((mapFields Value.canonical fields).map Prod.fst).Nodup := by
      rwa [names_mapFields]
    rw [Value.toJson_record, jsonToValue_object hobject, sortFields_mapFields _ hnames,
      jsonToFields_eq hvalues, ← sortFields_mapFields _ hnames, Value.canonical_record]
    change Value.recordValue (sortFields (sortFields _)) span = _
    rw [sortFields_eq_self (pairwise_sortFields hmapped)]
    exact if_neg (not_lt_of_ge (hlimit.trans hdepth))
  | none => rfl
  | variant hname hpayload ih =>
    rename_i name payload
    have hlimit := (@Value.Comparable.variant name _ hpayload.comparable).depth_canonical_le
    rw [Value.canonical] at hlimit
    have hpayloadDepth : payload.depth ≤ maxValueDepth := by
      rw [Value.depth] at hdepth
      omega
    have hbuilt : Value.variantValue name payload.canonical span =
        .ok (.variant name (some payload.canonical)) :=
      if_neg (not_lt_of_ge (hlimit.trans hdepth))
    rw [Value.toJson, Krit.jsonToValue, ih hpayloadDepth, Value.canonical]
    cases name with
    | none => cases hname
    | some => exact hbuilt
    | ok => exact hbuilt
    | err => exact hbuilt
  | _ => rfl

end Decoding

/-! ## The round trip -/

section RoundTrip

variable {serde : SerdeJson} {span : Span}

/-- `value_equal` on comparable values. -/
theorem valueEqual_eq_true_iff {left right : Value} (hleft : left.Comparable)
    (hright : right.Comparable) :
    valueEqual left right span = .ok true ↔ left.canonical = right.canonical := by
  obtain ⟨equal, hequal, hiff⟩ := decides hleft span right hright
  rw [hequal, Except.ok.injEq, hiff]

theorem Value.Encodable.encoded (hserde : serde.RoundTrips) {value : Value}
    (hvalue : value.Encodable) (hdepth : value.depth < serdeRecursionLimit) (span : Span) :
    ∃ text, serde.fromStr text = .ok value.toJson ∧
      jsonEncode serde value span = .ok (.string text) := by
  obtain ⟨text, hprinted, hparsed⟩ :=
    hserde value.toJson hvalue.integral (hvalue.depth_toJson_le.trans_lt hdepth)
  refine ⟨text, hparsed, ?_⟩
  rw [jsonEncode, hvalue.comparable.valueToJson]
  simp only [bind, Except.bind, hprinted]

end RoundTrip

/-- JSON conversion round-trips.  Let the JSON reader parse what the writer printed below its
recursion limit: then decoding the text of a value succeeds and yields an equal value, and two
values have one text exactly if they are equal.  And equality is an equivalence on the values
without functions whose records have distinct field names. -/
theorem json_round_trip (serde : SerdeJson) (hserde : serde.RoundTrips) (span : Span) :
    (∀ value : Value, value.Encodable → value.depth ≤ 127 →
      ∃ text decoded, jsonEncode serde value span = .ok text ∧
        jsonDecode serde text span = .ok decoded ∧ valueEqual decoded value span = .ok true) ∧
    (∀ left right : Value, left.Encodable → left.depth ≤ 127 → right.Encodable →
      right.depth ≤ 127 →
      (valueEqual left right span = .ok true →
        jsonEncode serde left span = jsonEncode serde right span) ∧
      (valueEqual left right span ≠ .ok true →
        ∃ leftText rightText, jsonEncode serde left span = .ok (.string leftText) ∧
          jsonEncode serde right span = .ok (.string rightText) ∧ leftText ≠ rightText)) ∧
    (∀ value : Value, value.Comparable → valueEqual value value span = .ok true) ∧
    (∀ left right : Value, left.Comparable → right.Comparable →
      valueEqual left right span = .ok true → valueEqual right left span = .ok true) ∧
    (∀ left middle right : Value, left.Comparable → middle.Comparable → right.Comparable →
      valueEqual left middle span = .ok true → valueEqual middle right span = .ok true →
        valueEqual left right span = .ok true) := by
  have hbound : 127 < serdeRecursionLimit := by decide
  have hlimit : serdeRecursionLimit ≤ maxValueDepth := by decide
  refine ⟨?_, ?_, ?_, ?_, ?_⟩
  · intro value hvalue hdepth
    obtain ⟨text, hparsed, hencoded⟩ :=
      hvalue.encoded hserde (hdepth.trans_lt hbound) span
    refine ⟨.string text, value.canonical, hencoded, ?_, ?_⟩
    · simp only [jsonDecode, hparsed]
      exact hvalue.jsonToValue (by omega) span
    · obtain ⟨hcanonical, hsame⟩ := hvalue.comparable.canonical
      rw [valueEqual_eq_true_iff hcanonical hvalue.comparable]
      exact hsame
  · intro left right hleft hleftDepth hright hrightDepth
    constructor
    · intro hequal
      have hsame := (valueEqual_eq_true_iff hleft.comparable hright.comparable).mp hequal
      rw [jsonEncode, jsonEncode, hleft.comparable.valueToJson, hright.comparable.valueToJson,
        ← hleft.comparable.toJson_canonical, hsame, hright.comparable.toJson_canonical]
    · intro hdifferent
      obtain ⟨leftText, hleftParsed, hleftEncoded⟩ :=
        hleft.encoded hserde (hleftDepth.trans_lt hbound) span
      obtain ⟨rightText, hrightParsed, hrightEncoded⟩ :=
        hright.encoded hserde (hrightDepth.trans_lt hbound) span
      refine ⟨leftText, rightText, hleftEncoded, hrightEncoded, ?_⟩
      intro htext
      -- one text is parsed as one tree, which decodes as one canonical form
      rw [htext, hrightParsed, Except.ok.injEq] at hleftParsed
      have hdecoded := hleft.jsonToValue (by omega) span
      rw [← hleftParsed, hright.jsonToValue (by omega) span, Except.ok.injEq] at hdecoded
      exact hdifferent
        ((valueEqual_eq_true_iff hleft.comparable hright.comparable).mpr hdecoded.symm)
  · intro value hvalue
    rw [valueEqual_eq_true_iff hvalue hvalue]
  · intro left right hleft hright hsame
    rw [valueEqual_eq_true_iff hleft hright] at hsame
    rw [valueEqual_eq_true_iff hright hleft]
    exact hsame.symm
  · intro left middle right hleft hmiddle hright hfirst hsecond
    rw [valueEqual_eq_true_iff hleft hmiddle] at hfirst
    rw [valueEqual_eq_true_iff hmiddle hright] at hsecond
    rw [valueEqual_eq_true_iff hleft hright]
    exact hfirst.trans hsecond

/-- `record { b: Some(()), a: [-3, None] }`. -/
def sampleRecord : Value :=
  .record [("b", .variant .some (some .unit)), ("a", .list [.integer (-3), .variant .none none])]

theorem json_round_trip_sample :
    sampleRecord.depth = 3 ∧
      ∃ text decoded, jsonEncode compactJson sampleRecord ⟨0, 4⟩ = .ok text ∧
        jsonDecode compactJson text ⟨0, 4⟩ = .ok decoded ∧
        valueEqual decoded sampleRecord ⟨0, 4⟩ = .ok true := by
  have hlist : (Value.list [.integer (-3), .variant .none none]).Encodable := by
    refine .list ?_
    intro element helement
    rcases List.mem_cons.mp helement with heq | hlast
    · rw [heq]
      exact .integer (by decide)
    · rw [List.mem_singleton.mp hlast]
      exact .none
  have hsample : sampleRecord.Encodable := by
    refine .record (by decide) ?_ ?_
    · intro name value hsingle
      simp at hsingle
    · intro field hfield
      rcases List.mem_cons.mp hfield with heq | hlast
      · rw [heq]
        exact .variant rfl .unit
      · rw [List.mem_singleton.mp hlast]
        exact hlist
  have hdepth : sampleRecord.depth = 3 := by decide
  refine ⟨hdepth, ?_⟩
  exact (json_round_trip compactJson compactJson_roundTrips ⟨0, 4⟩).1 sampleRecord hsample
    (by omega)

end Krit
