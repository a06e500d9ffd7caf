import Krit.Wit

/-!
# The world of a program

Which imports the selected world has, and that the contract the compiler loads for it is
exactly the selected one.
-/

namespace Krit.Artifact

open Interface

/-- The interface that an effect needs.  A program that reads secrets needs the bearer
interface for its requests. -/
def neededInterface (secret : Bool) : Effect → Option Interface
  | .ioStdout => some .stdout
  | .configRead => some .config
  | .secretRead => some .secrets
  | .httpRequest => some (if secret then .http else .httpAnonymous)
  | .aiInvoke => some .ai
  | .observeLog => some .logging
  | .stateTransaction => some .state
  | .queuePublish => some .queue
  | .objectRead => some .objectsRead
  | .objectWrite => some .objectsWrite
  | .databaseRead | .databaseWrite => some .database
  | .cacheRead => some .cacheRead
  | .cacheWrite => some .cacheWrite
  | .searchQuery => some .searchQuery
  | .searchVector => some .searchVector
  | .queueConsume | .scheduleTrigger => none

/-! ## Masks -/

theorem or_and_ne_zero {mask bit other : ℕ} :
    (mask ||| bit) &&& other ≠ 0 ↔ mask &&& other ≠ 0 ∨ bit &&& other ≠ 0 := by
  rw [Nat.and_or_distrib_right]
  constructor
  · intro hor
    by_contra hnone
    push Not at hnone
    rw [hnone.1, hnone.2] at hor
    exact hor rfl
  · rintro (hleft | hright) hzero
    · exact hleft (Nat.or_eq_zero_iff.mp hzero).1
    · exact hright (Nat.or_eq_zero_iff.mp hzero).2

/-- The surfaces have one bit each. -/
theorem bit_and_bit {left right : ImportSurface} (hleft : left ∈ importSurfaces)
    (hright : right ∈ importSurfaces) : left.bit &&& right.bit ≠ 0 ↔ left = right := by
  have htable : ∀ left ∈ importSurfaces, ∀ right ∈ importSurfaces,
      (left.bit &&& right.bit ≠ 0 ↔ left = right) := by decide
  exact htable left hleft right hright

/-- An effect with a bit has the surface of that bit. -/
theorem surface_of_bit {effect : Effect} {bit : ℕ} (hbit : surfaceBit effect = some bit) :
    ∃ surface ∈ importSurfaces, surface.bit = bit ∧ ∀ secret,
      neededInterface secret effect =
        some (if surface.bit = httpBit ∧ secret then .http else surface.interface) := by
  have hall := effect.mem_all
  have htable : ∀ effect ∈ Effect.all, ∀ bit ∈ surfaceBit effect,
      ∃ surface ∈ importSurfaces, surface.bit = bit ∧ ∀ secret : Bool,
        neededInterface secret effect =
          some (if surface.bit = httpBit ∧ secret then .http else surface.interface) := by
    decide
  exact htable effect hall bit hbit

theorem neededInterface_eq_none {secret : Bool} {effect : Effect} :
    neededInterface secret effect = none ↔ surfaceBit effect = none := by
  cases effect <;> simp [neededInterface, surfaceBit]

/-- The surfaces of a mask. -/
theorem mem_chosenSurfaces {mask : ℕ} {surface : ImportSurface} :
    surface ∈ chosenSurfaces mask ↔ surface ∈ importSurfaces ∧ mask &&& surface.bit ≠ 0 := by
  simp [chosenSurfaces]

/-- A mask that holds the bits of exactly the surfaces that the effects need. -/
def Covers (effects : List Effect) (mask : ℕ) : Prop :=
  ∀ surface ∈ importSurfaces,
    mask &&& surface.bit ≠ 0 ↔ ∃ effect ∈ effects, surfaceBit effect = some surface.bit

theorem surfaceBit_secrets {effect : Effect} :
    surfaceBit effect = some secretsBit ↔ effect = .secretRead := by
  cases effect <;> decide

theorem Covers.secret {effects : List Effect} {mask : ℕ} (hcovers : Covers effects mask) :
    mask &&& secretsBit ≠ 0 ↔ Effect.secretRead ∈ effects := by
  have hsurface : (⟨1 <<< 2, .secrets, .secrets⟩ : ImportSurface) ∈ importSurfaces := by decide
  have hbits := hcovers _ hsurface
  change mask &&& secretsBit ≠ 0 ↔ ∃ effect ∈ effects, surfaceBit effect = some secretsBit
    at hbits
  rw [hbits]
  constructor
  · rintro ⟨effect, hmem, hbit⟩
    rw [surfaceBit_secrets.mp hbit] at hmem
    exact hmem
  · intro hmem
    exact ⟨.secretRead, hmem, rfl⟩

/-- The interfaces of a mask are those that its effects need. -/
theorem Covers.mem_chosenInterfaces {effects : List Effect} {mask : ℕ}
    (hcovers : Covers effects mask) {interface : Interface} :
    interface ∈ chosenInterfaces mask ↔
      ∃ effect ∈ effects,
        neededInterface (decide (Effect.secretRead ∈ effects)) effect = some interface := by
  simp only [chosenInterfaces, List.mem_map, mem_chosenSurfaces]
  constructor
  · rintro ⟨surface, ⟨hsurface, hbit⟩, hselected⟩
    obtain ⟨effect, hmem, heffect⟩ := (hcovers surface hsurface).mp hbit
    obtain ⟨other, hother, hsame, hneeded⟩ := surface_of_bit heffect
    have heq : other = surface := by
      rw [← bit_and_bit hother hsurface, hsame, ← hsame, bit_and_bit hother hother]
    subst heq
    refine ⟨effect, hmem, ?_⟩
    rw [hneeded, ← hselected, ImportSurface.selected]
    simp [hcovers.secret]
  · rintro ⟨effect, hmem, hneeded⟩
    cases hbit : surfaceBit effect with
    | none =>
      rw [neededInterface_eq_none.mpr hbit] at hneeded
      cases hneeded
    | some bit =>
      obtain ⟨surface, hsurface, hsame, htable⟩ := surface_of_bit hbit
      refine ⟨surface, ⟨hsurface, ?_⟩, ?_⟩
      · rw [hcovers surface hsurface]
        exact ⟨effect, hmem, by rw [hbit, hsame]⟩
      · rw [htable, Option.some.injEq] at hneeded
        rw [← hneeded, ImportSurface.selected]
        simp [hcovers.secret]

/-! ## Selection -/

/-- What the loop over the checked effects makes of them. -/
structure Scanned (exportEffect : Option Effect) (effects : List Effect)
    (sawBefore : Bool) (before : ℕ) (saw : Bool) (after : ℕ) : Prop where
  exports : saw = true ↔ sawBefore = true ∨ ∃ effect ∈ effects, exportEffect = some effect
  known : ∀ effect ∈ effects, surfaceBit effect = none → exportEffect = some effect
  below : before < 2 ^ 15 → after < 2 ^ 15
  bits : ∀ surface ∈ importSurfaces, after &&& surface.bit ≠ 0 ↔
    before &&& surface.bit ≠ 0 ∨ ∃ effect ∈ effects, surfaceBit effect = some surface.bit

theorem surfaceBit_lt {effect : Effect} {bit : ℕ} (hbit : surfaceBit effect = some bit) :
    bit < 2 ^ 15 := by
  obtain ⟨surface, hsurface, hsame, -⟩ := surface_of_bit hbit
  have htable : ∀ surface ∈ importSurfaces, surface.bit < 2 ^ 15 := by decide
  rw [← hsame]
  exact htable surface hsurface

theorem bit_and_surface {effect : Effect} {bit : ℕ} (hbit : surfaceBit effect = some bit)
    {surface : ImportSurface} (hsurface : surface ∈ importSurfaces) :
    bit &&& surface.bit ≠ 0 ↔ bit = surface.bit := by
  obtain ⟨other, hother, hsame, -⟩ := surface_of_bit hbit
  rw [← hsame, bit_and_bit hother hsurface]
  constructor
  · intro heq
    rw [heq]
  · intro hbits
    rw [← bit_and_bit hother hsurface, hbits, bit_and_bit hsurface hsurface]

/-- An effect that is the one of the export. -/
theorem Scanned.seen {exportEffect : Option Effect} {first : Effect} {rest : List Effect}
    {sawBefore saw : Bool} {before after : ℕ} (hfirst : exportEffect = some first)
    (hsurface : surfaceBit first = none)
    (hrest : Scanned exportEffect rest true before saw after) :
    Scanned exportEffect (first :: rest) sawBefore before saw after where
  exports := by
    have hsaw : saw = true := hrest.exports.mpr (.inl rfl)
    simp [hsaw, hfirst]
  known := by
    intro effect hmem hnone
    rcases List.mem_cons.mp hmem with rfl | hlater
    · exact hfirst
    · exact hrest.known effect hlater hnone
  below := hrest.below
  bits := by
    intro surface hmem
    rw [hrest.bits surface hmem]
    simp [hsurface]

/-- An effect that needs a surface. -/
theorem Scanned.needed {exportEffect : Option Effect} {first : Effect} {rest : List Effect}
    {sawBefore saw : Bool} {before after bit : ℕ} (hfirst : exportEffect ≠ some first)
    (hbit : surfaceBit first = some bit)
    (hrest : Scanned exportEffect rest sawBefore (before ||| bit) saw after) :
    Scanned exportEffect (first :: rest) sawBefore before saw after where
  exports := by
    rw [hrest.exports]
    simp [hfirst]
  known := by
    intro effect hmem hnone
    rcases List.mem_cons.mp hmem with rfl | hlater
    · rw [hbit] at hnone
      cases hnone
    · exact hrest.known effect hlater hnone
  below := by
    intro hbefore
    exact hrest.below (Nat.or_lt_two_pow hbefore (surfaceBit_lt hbit))
  bits := by
    intro surface hmem
    rw [hrest.bits surface hmem, or_and_ne_zero, bit_and_surface hbit hmem]
    simp [hbit, or_assoc]

theorem scanEffects_spec {exportEffect : Option Effect}
    (hexport : ∀ effect, exportEffect = some effect → surfaceBit effect = none)
    {effects : List String} {sawBefore saw : Bool} {before after : ℕ}
    (hscan : scanEffects exportEffect sawBefore before effects = .ok (saw, after)) :
    ∃ found : List Effect, effects = found.map Effect.asStr ∧
      Scanned exportEffect found sawBefore before saw after := by
  induction effects generalizing sawBefore before with
  | nil =>
    simp only [scanEffects, Except.ok.injEq, Prod.mk.injEq] at hscan
    obtain ⟨rfl, rfl⟩ := hscan
    exact ⟨[], rfl, by simp, by simp, id, by simp⟩
  | cons effect rest ih =>
    rw [scanEffects] at hscan
    by_cases hsame : some effect = exportEffect.map Effect.asStr
    · rw [if_pos hsame] at hscan
      obtain ⟨found, hrest, hscanned⟩ := ih hscan
      obtain ⟨first, hfirst, hname⟩ := Option.map_eq_some_iff.mp hsame.symm
      refine ⟨first :: found, ?_, hscanned.seen hfirst (hexport first hfirst)⟩
      rw [List.map_cons, hname, hrest]
    · rw [if_neg hsame] at hscan
      cases hname : Effect.fromName effect with
      | none =>
        rw [hname] at hscan
        cases hscan
      | some first =>
        have heffect := Effect.eq_asStr_of_fromName hname
        rw [hname, Option.bind_some] at hscan
        cases hbit : surfaceBit first with
        | none =>
          rw [hbit] at hscan
          cases hscan
        | some bit =>
          rw [hbit] at hscan
          obtain ⟨found, hrest, hscanned⟩ := ih hscan
          have hfirst : exportEffect ≠ some first := by
            intro hexported
            apply hsame
            rw [hexported, heffect, Option.map_some]
          refine ⟨first :: found, ?_, hscanned.needed hfirst hbit⟩
          rw [List.map_cons, ← heffect, hrest]

theorem surfaceBit_exportEffect {kind : ProgramKind} {effect : Effect}
    (hexport : kind.exportEffect = some effect) : surfaceBit effect = none := by
  cases kind <;> cases hexport <;> rfl

/-- The world that is selected for the surfaces of a mask. -/
def maskSelection (kind : ProgramKind) (mask : ℕ) : WorldSelection :=
  let name := [kind.worldPrefix] ++ (chosenSurfaces mask).map ImportSurface.token ++ [.program]
  { name
    id := worldIdentity name
    componentImports := SortedList.sort ((chosenInterfaces mask).map Interface.identity)
    generated := decide (kind ≠ .webhook ∨ mask &&& uncheckedMask ≠ 0)
    exported := kind }

/-- The worlds that can be selected. -/
inductive Chosen : ProgramKind → List Effect → WorldSelection → Prop
  | pure : Chosen .module []
      ⟨[.pure, .program], worldIdentity [.pure, .program], [], false, .module⟩
  | stdout : Chosen .module [.ioStdout]
      ⟨[.program], worldIdentity [.program], [Interface.stdout.identity], false, .module⟩
  | surfaces {kind : ProgramKind} {effects : List Effect} {mask : ℕ}
      (entrypoint : kind ≠ .module) (below : mask < 2 ^ 15) (covers : Covers effects mask)
      (exports : ∀ effect, kind.exportEffect = some effect → effect ∈ effects)
      (known : ∀ effect ∈ effects, surfaceBit effect = none → kind.exportEffect = some effect) :
      Chosen kind effects (maskSelection kind mask)

theorem selectWorld_spec {kind : ProgramKind} {effects : List String}
    {selection : WorldSelection} (hselect : selectWorld kind effects = .ok selection) :
    effects.Pairwise (· < ·) ∧
      ∃ found : List Effect, effects = found.map Effect.asStr ∧ Chosen kind found selection := by
  unfold selectWorld at hselect
  by_cases hsorted : SortedList.sortedUnique effects = false
  · rw [if_pos hsorted] at hselect
    cases hselect
  rw [if_neg hsorted] at hselect
  refine ⟨SortedList.sortedUnique_iff.mp (by simpa using hsorted), ?_⟩
  by_cases hmodule : kind = .module
  · subst hmodule
    rw [if_pos rfl] at hselect
    by_cases hempty : effects = []
    · rw [if_pos hempty] at hselect
      cases hselect
      exact ⟨[], hempty, .pure⟩
    rw [if_neg hempty] at hselect
    by_cases hstdout : effects = [Effect.ioStdout.asStr]
    · rw [if_pos hstdout] at hselect
      cases hselect
      exact ⟨[.ioStdout], hstdout, .stdout⟩
    · rw [if_neg hstdout] at hselect
      cases hselect
  · rw [if_neg hmodule] at hselect
    cases hscan : scanEffects kind.exportEffect false 0 effects with
    | error reason =>
      rw [hscan] at hselect
      cases hselect
    | ok scanned =>
      obtain ⟨saw, mask⟩ := scanned
      rw [hscan] at hselect
      obtain ⟨found, hfound, hscanned⟩ :=
        scanEffects_spec (fun _ => surfaceBit_exportEffect) hscan
      change (if _ then _ else _) = _ at hselect
      by_cases hexport : kind.exportEffect.isSome ≠ saw
      · rw [if_pos hexport] at hselect
        cases hselect
      rw [if_neg hexport] at hselect
      cases hselect
      refine ⟨found, hfound, .surfaces hmodule (hscanned.below (by decide)) ?_ ?_ hscanned.known⟩
      · intro surface hsurface
        rw [hscanned.bits surface hsurface]
        simp
      · intro effect heffect
        have hsaw : saw = true := by
          rw [heffect] at hexport
          simpa using hexport
        obtain hfalse | ⟨other, hmem, hother⟩ := hscanned.exports.mp hsaw
        · cases hfalse
        · rw [heffect, Option.some.injEq] at hother
          rw [hother]
          exact hmem

/-! ## Imports of the selected world -/

/-- Distinct surfaces stand for distinct interfaces. -/
theorem selected_injective {left right : ImportSurface} (hleft : left ∈ importSurfaces)
    (hright : right ∈ importSurfaces) {mask : ℕ}
    (hsame : left.selected mask = right.selected mask) : left = right := by
  have htable : ∀ left ∈ importSurfaces, ∀ right ∈ importSurfaces, ∀ secret : Bool,
      (if left.bit = httpBit ∧ secret then Interface.http else left.interface) =
        (if right.bit = httpBit ∧ secret then .http else right.interface) → left = right := by
    decide
  apply htable left hleft right hright (decide (mask &&& secretsBit ≠ 0))
  simpa [ImportSurface.selected] using hsame

theorem nodup_chosenInterfaces (mask : ℕ) : (chosenInterfaces mask).Nodup := by
  have hsurfaces : (chosenSurfaces mask).Nodup := List.Nodup.filter _ (by decide)
  refine List.Nodup.map_on ?_ hsurfaces
  intro left hleft right hright hsame
  exact selected_injective (mem_chosenSurfaces.mp hleft).1 (mem_chosenSurfaces.mp hright).1 hsame

theorem pairwise_identities {interfaces : List Interface} (hnodup : interfaces.Nodup) :
    (SortedList.sort (interfaces.map Interface.identity)).Pairwise (· < ·) :=
  SortedList.pairwise_sort_of_nodup (hnodup.map identity_injective)

theorem Chosen.importsSorted {kind : ProgramKind} {effects : List Effect}
    {selection : WorldSelection} (hchosen : Chosen kind effects selection) :
    selection.componentImports.Pairwise (· < ·) := by
  cases hchosen with
  | pure => exact List.Pairwise.nil
  | stdout => exact List.pairwise_singleton _ _
  | surfaces => exact pairwise_identities (nodup_chosenInterfaces _)

/-- The world of a program imports the interfaces that its effects need, and no others. -/
theorem Chosen.mem_imports {kind : ProgramKind} {effects : List Effect}
    {selection : WorldSelection} (hchosen : Chosen kind effects selection) {name : String} :
    name ∈ selection.componentImports ↔ ∃ effect ∈ effects, ∃ interface,
      neededInterface (decide (Effect.secretRead ∈ effects)) effect = some interface ∧
        name = interface.identity := by
  cases hchosen with
  | pure => simp
  | stdout => simp [neededInterface]
  | surfaces _ _ hcovers =>
    simp only [maskSelection, SortedList.mem_sort, List.mem_map, hcovers.mem_chosenInterfaces]
    constructor
    · rintro ⟨interface, ⟨effect, hmem, hneeded⟩, hname⟩
      exact ⟨effect, hmem, interface, hneeded, hname.symm⟩
    · rintro ⟨effect, hmem, interface, hneeded, hname⟩
      exact ⟨interface, ⟨effect, hmem, hneeded⟩, hname.symm⟩

/-! ## The contract of the selected world -/

theorem foldl_mask_ne_zero {chosen : ImportSurface → Bool} {list : List ImportSurface}
    {mask bit : ℕ} :
    list.foldl (fun mask surface => if chosen surface then mask ||| surface.bit else mask) mask
        &&& bit ≠ 0 ↔
      mask &&& bit ≠ 0 ∨ ∃ surface ∈ list, chosen surface = true ∧ surface.bit &&& bit ≠ 0 := by
  induction list generalizing mask with
  | nil => simp
  | cons surface rest ih =>
    rw [List.foldl_cons, ih]
    by_cases hchosen : chosen surface = true
    · rw [if_pos hchosen, or_and_ne_zero]
      simp [hchosen, or_assoc]
    · rw [if_neg hchosen]
      simp [hchosen]

/-- The imports of a selection name its surfaces. -/
theorem names_surface {mask : ℕ} {left right : ImportSurface} (hleft : left ∈ importSurfaces)
    (hright : right ∈ importSurfaces) :
    (left.selected mask = right.interface ∨
      right.bit = httpBit ∧ left.selected mask = .http) → left = right := by
  have htable : ∀ left ∈ importSurfaces, ∀ right ∈ importSurfaces, ∀ secret : Bool,
      ((if left.bit = httpBit ∧ secret then Interface.http else left.interface) =
          right.interface ∨ right.bit = httpBit ∧
        (if left.bit = httpBit ∧ secret then Interface.http else left.interface) = .http) →
      left = right := by
    decide
  intro hnames
  apply htable left hleft right hright (decide (mask &&& secretsBit ≠ 0))
  simpa [ImportSurface.selected] using hnames

/-- The mask is read back from the imports it stands for. -/
theorem selectedMask_and {mask : ℕ} {surface : ImportSurface}
    (hsurface : surface ∈ importSurfaces) :
    selectedMask (SortedList.sort ((chosenInterfaces mask).map Interface.identity)) &&&
      surface.bit ≠ 0 ↔ mask &&& surface.bit ≠ 0 := by
  rw [selectedMask, foldl_mask_ne_zero]
  simp only [Nat.zero_and, ne_eq, not_true_eq_false, false_or, List.any_eq_true,
    SortedList.mem_sort, List.mem_map, Bool.or_eq_true, beq_iff_eq, Bool.and_eq_true]
  constructor
  · rintro ⟨other, hother, ⟨name, ⟨interface, hmem, rfl⟩, hname⟩, hbits⟩
    have heq : other = surface := (bit_and_bit hother hsurface).mp hbits
    subst heq
    obtain ⟨chosen, hchosen, rfl⟩ := List.mem_map.mp hmem
    obtain ⟨hlisted, hbit⟩ := mem_chosenSurfaces.mp hchosen
    rw [identity_inj, identity_inj] at hname
    rw [names_surface hlisted hother hname] at hbit
    exact hbit
  · intro hbit
    refine ⟨surface, hsurface, ⟨(surface.selected mask).identity,
      ⟨surface.selected mask, ?_, rfl⟩, ?_⟩, ?_⟩
    · exact List.mem_map_of_mem (mem_chosenSurfaces.mpr ⟨hsurface, hbit⟩)
    · rw [identity_inj, identity_inj, ImportSurface.selected]
      split_ifs with hbearer
      · exact .inr ⟨hbearer.1, rfl⟩
      · exact .inl rfl
    · exact (bit_and_bit hsurface hsurface).mpr rfl

theorem chosenInterfaces_selectedMask (mask : ℕ) :
    chosenInterfaces
        (selectedMask (SortedList.sort ((chosenInterfaces mask).map Interface.identity))) =
      chosenInterfaces mask := by
  set other := selectedMask (SortedList.sort ((chosenInterfaces mask).map Interface.identity))
    with hother
  have hsecret : other &&& secretsBit ≠ 0 ↔ mask &&& secretsBit ≠ 0 :=
    @selectedMask_and mask ⟨1 <<< 2, .secrets, .secrets⟩ (by decide)
  have hsurfaces : chosenSurfaces other = chosenSurfaces mask := by
    refine List.filter_congr ?_
    intro surface hsurface
    rw [decide_eq_decide]
    exact selectedMask_and hsurface
  rw [chosenInterfaces, chosenInterfaces, hsurfaces]
  refine List.map_congr_left ?_
  intro surface _
  simp only [ImportSurface.selected, hsecret]

/-- The bearer interface stands only where secrets are imported, and never beside the
anonymous one. -/
theorem http_mem_chosenInterfaces {mask : ℕ} (hhttp : Interface.http ∈ chosenInterfaces mask) :
    Interface.secrets ∈ chosenInterfaces mask ∧
      Interface.httpAnonymous ∉ chosenInterfaces mask := by
  obtain ⟨surface, hsurface, hselected⟩ := List.mem_map.mp hhttp
  have hplain : ∀ surface ∈ importSurfaces, surface.interface ≠ .http := by decide
  have hanonymous : ∀ surface ∈ importSurfaces,
      surface.interface = .httpAnonymous → surface.bit = httpBit := by decide
  have hsecret : mask &&& secretsBit ≠ 0 := by
    rw [ImportSurface.selected] at hselected
    split_ifs at hselected with hbearer
    · exact hbearer.2
    · exact absurd hselected (hplain surface (mem_chosenSurfaces.mp hsurface).1)
  constructor
  · have hmem : (⟨1 <<< 2, .secrets, .secrets⟩ : ImportSurface) ∈ chosenSurfaces mask :=
      mem_chosenSurfaces.mpr ⟨by decide, hsecret⟩
    exact List.mem_map_of_mem hmem
  · intro hother
    obtain ⟨other, hlisted, hchosen⟩ := List.mem_map.mp hother
    rw [ImportSurface.selected] at hchosen
    split_ifs at hchosen with hbearer
    exact hbearer ⟨hanonymous other (mem_chosenSurfaces.mp hlisted).1 hchosen, hsecret⟩

/-- Nothing is added to the imports of a mask. -/
theorem mem_elaborated {name : List Word} {mask : ℕ} {kind : ProgramKind}
    {interface : Interface} :
    interface ∈ (⟨name, chosenInterfaces mask, kind⟩ : World).elaborated ↔
      interface ∈ chosenInterfaces mask := by
  simp only [World.elaborated, List.mem_dedup, List.mem_flatMap, List.mem_append,
    List.mem_singleton]
  constructor
  · rintro ⟨other, hother, huses | hsame⟩
    · cases other with
      | http =>
        rw [Interface.uses, List.mem_singleton] at huses
        rw [huses]
        exact (http_mem_chosenInterfaces hother).1
      | _ => cases huses
    · rw [hsame]
      exact hother
  · intro hmem
    exact ⟨interface, hmem, .inr rfl⟩

/-- Only the two HTTP interfaces have a function of the same name. -/
theorem functions_disjoint {left right : Interface} (hne : left ≠ right)
    (hanonymous : ¬(left = .http ∧ right = .httpAnonymous))
    (hbearer : ¬(left = .httpAnonymous ∧ right = .http)) :
    left.functions.Disjoint right.functions := by
  have htable : ∀ left ∈ Interface.all, ∀ right ∈ Interface.all, left ≠ right →
      ¬(left = .http ∧ right = .httpAnonymous) → ¬(left = .httpAnonymous ∧ right = .http) →
      ∀ name ∈ left.functions, name ∉ right.functions := by
    decide +kernel
  intro name hname hother
  exact htable left left.mem_all right right.mem_all hne hanonymous hbearer name hname hother

theorem nodup_functions {interfaces : List Interface} (hnodup : interfaces.Nodup)
    (hhttp : ¬(Interface.http ∈ interfaces ∧ Interface.httpAnonymous ∈ interfaces)) :
    ((interfaces.flatMap fun interface => interface.functions.map (interface, ·)).map
      Prod.snd).Nodup := by
  have hnames : (interfaces.flatMap fun interface => interface.functions.map (interface, ·)).map
      Prod.snd = interfaces.flatMap Interface.functions := by
    rw [List.map_flatMap]
    simp [Function.comp_def]
  rw [hnames, List.nodup_flatMap]
  constructor
  · have htable : ∀ interface ∈ Interface.all, interface.functions.Nodup := by
      decide
    intro interface _
    exact htable interface interface.mem_all
  · refine (List.Pairwise.imp_of_mem ?_ hnodup)
    intro left right hleft hright hne
    apply functions_disjoint hne
    · rintro ⟨rfl, rfl⟩
      exact hhttp ⟨hleft, hright⟩
    · rintro ⟨rfl, rfl⟩
      exact hhttp ⟨hright, hleft⟩

/-- The contract of a world that imports the interfaces of a mask. -/
theorem contractFromWorld_chosen (name : List Word) (mask : ℕ) (kind : ProgramKind) :
    ∃ contract, contractFromWorld ⟨name, chosenInterfaces mask, kind⟩ = .ok contract ∧
      contract.world = worldIdentity name ∧
      contract.componentImports =
        SortedList.sort ((chosenInterfaces mask).map Interface.identity) ∧
      contract.componentExport = kind.componentExport ∧ contract.kind = kind := by
  set world : World := ⟨name, chosenInterfaces mask, kind⟩ with hworld
  have hnodup : world.elaborated.Nodup := List.nodup_dedup _
  have hmem : ∀ interface, interface ∈ world.elaborated ↔ interface ∈ chosenInterfaces mask :=
    fun _ => mem_elaborated
  have hfunctions := nodup_functions hnodup (by
    rintro ⟨hhttp, hanonymous⟩
    rw [hmem] at hhttp hanonymous
    exact (http_mem_chosenInterfaces hhttp).2 hanonymous)
  have himports : SortedList.sort (world.elaborated.map Interface.identity) =
      SortedList.sort ((chosenInterfaces mask).map Interface.identity) := by
    refine SortedList.eq_of_mem_iff (pairwise_identities hnodup)
      (pairwise_identities (nodup_chosenInterfaces mask)) ?_
    intro value
    simp only [SortedList.mem_sort, List.mem_map, hmem]
  unfold contractFromWorld
  rw [if_pos hfunctions]
  exact ⟨_, rfl, rfl, himports, rfl, rfl⟩

/-! ## The world in the package -/

/-- The names in the package are distinct; each has the word `host` or starts with one of
three words; and none has the token of a surface that is not checked in. -/
theorem checkedInWorlds_names :
    (checkedInWorlds.map World.name).Nodup ∧
      (∀ name ∈ checkedInWorlds.map World.name,
        Word.host ∈ name ∨ name.head? = some .webhook ∨ name.head? = some .pure ∨
          name.head? = some .program) ∧
      ∀ name ∈ checkedInWorlds.map World.name,
        ∀ surface ∈ importSurfaces.drop 6, surface.token ∉ name := by
  decide +kernel

theorem nodup_checkedInWorlds : (checkedInWorlds.map World.name).Nodup :=
  checkedInWorlds_names.1

/-- A mask of checked-in surfaces. -/
theorem lt_of_checkedIn {mask : ℕ} (hbelow : mask < 2 ^ 15) (hmask : mask &&& uncheckedMask = 0) :
    mask < 2 ^ 6 := by
  refine Nat.lt_pow_two_of_testBit _ ?_
  intro bit hbit
  by_cases hlow : bit < 15
  · have hset : uncheckedMask.testBit bit = true := by
      interval_cases bit <;> decide
    have hboth : (mask &&& uncheckedMask).testBit bit = false := by
      rw [hmask, Nat.zero_testBit]
    rw [Nat.testBit_and, hset, Bool.and_true] at hboth
    exact hboth
  · exact Nat.testBit_lt_two_pow (hbelow.trans_le (Nat.pow_le_pow_right (by decide) (by omega)))

/-- Every webhook world of the checked-in surfaces is in the package. -/
theorem checkedInWorlds_find {mask : ℕ} (hmask : mask < 2 ^ 6) :
    checkedInWorlds.find? (fun world => world.name == (maskSelection .webhook mask).name) =
      some ⟨(maskSelection .webhook mask).name, chosenInterfaces mask, .webhook⟩ := by
  have htable : ∀ mask < 2 ^ 6,
      checkedInWorlds.find?
          (fun world => world.name ==
            [.webhook] ++ (chosenSurfaces mask).map ImportSurface.token ++ [.program]) =
        some ⟨[.webhook] ++ (chosenSurfaces mask).map ImportSurface.token ++ [.program],
          chosenInterfaces mask, .webhook⟩ := by
    decide +kernel
  exact htable mask hmask

theorem testBit_of_and {mask bit : ℕ} (hand : mask &&& 1 <<< bit = 0) :
    mask.testBit bit = false := by
  have hboth : (mask &&& 1 <<< bit).testBit bit = false := by
    rw [hand, Nat.zero_testBit]
  rw [Nat.testBit_and, Nat.one_shiftLeft, Nat.testBit_two_pow_self, Bool.and_true] at hboth
  exact hboth

/-- A mask that is not one of checked-in surfaces holds another surface. -/
theorem surface_of_unchecked {mask : ℕ} (hbelow : mask < 2 ^ 15)
    (hmask : mask &&& uncheckedMask ≠ 0) :
    ∃ surface ∈ importSurfaces.drop 6, mask &&& surface.bit ≠ 0 := by
  by_contra hnone
  push Not at hnone
  apply hmask
  refine Nat.eq_of_testBit_eq ?_
  intro bit
  rw [Nat.testBit_and, Nat.zero_testBit]
  by_cases hlow : bit < 6
  · have hclear : uncheckedMask.testBit bit = false := by
      interval_cases bit <;> decide
    rw [hclear, Bool.and_false]
  by_cases hhigh : bit < 15
  · have hlisted : ∀ bit < 15, ¬bit < 6 →
        1 <<< bit ∈ (importSurfaces.drop 6).map ImportSurface.bit := by decide
    obtain ⟨surface, hsurface, hbit⟩ := List.mem_map.mp (hlisted bit hhigh hlow)
    have hand := hnone surface hsurface
    rw [hbit] at hand
    rw [testBit_of_and hand, Bool.false_and]
  · have hclear : mask.testBit bit = false :=
      Nat.testBit_lt_two_pow (hbelow.trans_le (Nat.pow_le_pow_right (by decide) (by omega)))
    rw [hclear, Bool.false_and]

theorem token_mem {mask : ℕ} {word : Word}
    (hword : word ∈ (chosenSurfaces mask).map ImportSurface.token) :
    word ∈ importSurfaces.map ImportSurface.token := by
  obtain ⟨surface, hsurface, rfl⟩ := List.mem_map.mp hword
  exact List.mem_map_of_mem (mem_chosenSurfaces.mp hsurface).1

/-- No world of the package has the name of a generated one. -/
theorem generated_fresh {kind : ProgramKind} {mask : ℕ} (hkind : kind ≠ .module)
    (hbelow : mask < 2 ^ 15)
    (hgenerated : (maskSelection kind mask).generated = true) :
    (maskSelection kind mask).name ∉ checkedInWorlds.map World.name := by
  intro hmem
  have hnohost : Word.host ∉ (maskSelection kind mask).name := by
    simp only [maskSelection, List.mem_append, List.mem_singleton]
    rintro ((hhost | hhost) | hhost)
    · cases kind <;> cases hhost
    · exact absurd (token_mem hhost) (by decide)
    · cases hhost
  obtain ⟨-, hheads, hnever⟩ := checkedInWorlds_names
  have hhead : (maskSelection kind mask).name.head? = some kind.worldPrefix := rfl
  have hwebhook : kind = .webhook := by
    have hcases := hheads _ hmem
    rw [hhead] at hcases
    cases kind with
    | webhook => rfl
    | module => exact absurd rfl hkind
    | job => simp [hnohost, ProgramKind.worldPrefix] at hcases
    | schedule => simp [hnohost, ProgramKind.worldPrefix] at hcases
  subst hwebhook
  have hmask : mask &&& uncheckedMask ≠ 0 := by
    simpa [maskSelection] using hgenerated
  obtain ⟨surface, hsurface, hbit⟩ := surface_of_unchecked hbelow hmask
  apply hnever _ hmem surface hsurface
  simp only [maskSelection, List.mem_append]
  refine .inl (.inr (List.mem_map_of_mem ?_))
  exact mem_chosenSurfaces.mpr ⟨List.mem_of_mem_drop hsurface, hbit⟩

/-- The selected world is found in the completed package. -/
theorem resolveWorld_mask {kind : ProgramKind} {mask : ℕ} (hkind : kind ≠ .module)
    (hbelow : mask < 2 ^ 15) :
    resolveWorld (completeWitSource (maskSelection kind mask)) (maskSelection kind mask).name =
      .ok ⟨(maskSelection kind mask).name, chosenInterfaces mask, kind⟩ := by
  unfold resolveWorld completeWitSource
  by_cases hgenerated : (maskSelection kind mask).generated = true
  · have hfresh := generated_fresh hkind hbelow hgenerated
    have hnone : checkedInWorlds.find?
        (fun world => world.name == (maskSelection kind mask).name) = none := by
      rw [List.find?_eq_none]
      intro world hworld hname
      exact hfresh (beq_iff_eq.mp hname ▸ List.mem_map_of_mem hworld)
    have hnodup : ((checkedInWorlds ++ [generatedWorld (maskSelection kind mask)]).map
        World.name).Nodup := by
      rw [List.map_append, List.nodup_append]
      refine ⟨nodup_checkedInWorlds, List.nodup_singleton _, ?_⟩
      intro left hleft right hright heq
      rw [List.map_singleton, List.mem_singleton] at hright
      rw [heq, hright] at hleft
      exact hfresh hleft
    rw [if_pos hgenerated, if_pos hnodup, List.find?_append, hnone]
    simp [generatedWorld, maskSelection, chosenInterfaces_selectedMask]
  · have hchecked : kind = .webhook ∧ mask &&& uncheckedMask = 0 := by
      simpa [maskSelection] using hgenerated
    obtain ⟨rfl, hmask⟩ := hchecked
    rw [if_neg hgenerated, if_pos nodup_checkedInWorlds,
      checkedInWorlds_find (lt_of_checkedIn hbelow hmask)]

/-- The contract that is loaded for a program is the one of the selected world. -/
theorem loadContract_spec {kind : ProgramKind} {effects : List String}
    {selection : WorldSelection} (hselect : selectWorld kind effects = .ok selection) :
    ∃ contract, loadContract kind effects = .ok contract ∧ contract.world = selection.id ∧
      contract.componentImports = selection.componentImports ∧
      contract.componentExport = kind.componentExport ∧ contract.kind = kind := by
  obtain ⟨-, found, hfound, hchosen⟩ := selectWorld_spec hselect
  have hsortedImports : SortedList.sort selection.componentImports =
      selection.componentImports :=
    SortedList.sort_eq_self hchosen.importsSorted
  unfold loadContract
  rw [hselect]
  cases hchosen with
  | pure => exact ⟨_, rfl, by decide +kernel⟩
  | stdout => exact ⟨_, rfl, by decide +kernel⟩
  | surfaces hentrypoint hbelow hcovers hexports hknown =>
    rename_i mask
    obtain ⟨contract, hcontract, hworld, himports, hexport, hkind⟩ :=
      contractFromWorld_chosen (maskSelection kind mask).name mask kind
    have himportsAgree : contract.componentImports =
        SortedList.sort (maskSelection kind mask).componentImports := by
      rw [hsortedImports, himports]
      rfl
    refine ⟨contract, ?_, hworld, himports, hexport, hkind⟩
    change (resolveWorld _ _ >>= _) = _
    rw [resolveWorld_mask hentrypoint hbelow]
    change (if _ then _ else _) = _
    rw [if_neg (fun hidentity => hidentity rfl), hcontract]
    change (if _ then _ else if _ then _ else _) = _
    rw [if_neg (by simp [himportsAgree, hworld, maskSelection]),
      if_neg (by simp [hentrypoint])]

end Krit.Artifact
