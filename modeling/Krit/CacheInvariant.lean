import Krit.Cache

/-!
# The representation of the cache

The indexes of a namespace describe its entries, and the totals are the sums over
the namespaces.  Removing entries is one relation, `Shrinks`, whether an entry
expires, is replaced, evicted or deleted; the invariant is proved once for it, once
for a refreshed entry and once for a new entry.
-/

namespace Krit.Cache

open Std TreeTotal Machine

/-! ## One namespace -/

/-- What holds of the indexes even where stamps repeat: an access leads to an entry
with its stamp, and the deadlines are exactly those of the entries. -/
structure Namespace.Sound (ns : Namespace) : Prop where
  access : ∀ (stamp : ℕ) (key : String), ns.byAccess[stamp]? = some key →
    ∃ entry : Entry, ns.entries[key]? = some entry ∧ entry.stamp = stamp
  expiry : ∀ (expiresAt : ℕ) (key : String), (expiresAt, key) ∈ ns.byExpiry ↔
    ∃ entry : Entry, ns.entries[key]? = some entry ∧ entry.expiresAtMillis = expiresAt

/-- Every entry is found by its stamp, and the bytes are the sum of the charges. -/
structure Namespace.Accounted (ns : Namespace) : Prop where
  access : ∀ (key : String) (entry : Entry), ns.entries[key]? = some entry →
    ns.byAccess[entry.stamp]? = some key
  bytes : ns.bytes = total (fun key entry => charge key entry.value) ns.entries

/-- A namespace that has lost some entries and nothing else. -/
structure Namespace.Shrinks (ns next : Namespace) (removed : List String) (released : ℕ) :
    Prop where
  policy : next.policy = ns.policy
  present : ∀ key ∈ removed, ns.entries[key]? ≠ none
  gone : ∀ key ∈ removed, next.entries[key]? = none
  kept : ∀ key, key ∉ removed → next.entries[key]? = ns.entries[key]?
  nodup : removed.Nodup
  size : next.entries.size + removed.length = ns.entries.size
  sound : next.Sound
  accounted : ns.Accounted → next.Accounted ∧ next.bytes + released = ns.bytes

namespace Namespace.Shrinks

variable {ns next : Namespace} {removed : List String} {released : ℕ}

theorem refl (hsound : ns.Sound) : ns.Shrinks ns [] 0 where
  policy := rfl
  present := by simp
  gone := by simp
  kept := by simp
  nodup := List.nodup_nil
  size := by simp
  sound := hsound
  accounted := by
    intro haccounted
    exact ⟨haccounted, by simp⟩

theorem trans {last : Namespace} {removed' : List String} {released' : ℕ}
    (hfirst : ns.Shrinks next removed released) (hsecond : next.Shrinks last removed' released') :
    ns.Shrinks last (removed ++ removed') (released + released') where
  policy := hsecond.policy.trans hfirst.policy
  present := by
    intro key hkey
    rcases List.mem_append.mp hkey with hearly | hlate
    · exact hfirst.present key hearly
    · by_cases hearly : key ∈ removed
      · exact hfirst.present key hearly
      · rw [← hfirst.kept key hearly]
        exact hsecond.present key hlate
  gone := by
    intro key hkey
    rcases List.mem_append.mp hkey with hearly | hlate
    · by_cases hlate : key ∈ removed'
      · exact hsecond.gone key hlate
      · rw [hsecond.kept key hlate]
        exact hfirst.gone key hearly
    · exact hsecond.gone key hlate
  kept := by
    intro key hkey
    rw [List.mem_append, not_or] at hkey
    rw [hsecond.kept key hkey.2, hfirst.kept key hkey.1]
  nodup := by
    refine List.Nodup.append hfirst.nodup hsecond.nodup ?_
    intro key hearly hlate
    exact hsecond.present key hlate (hfirst.gone key hearly)
  size := by
    have hone := hfirst.size
    have htwo := hsecond.size
    rw [List.length_append]
    omega
  sound := hsecond.sound
  accounted := by
    intro haccounted
    obtain ⟨hnext, hbytes⟩ := hfirst.accounted haccounted
    obtain ⟨hlast, hbytes'⟩ := hsecond.accounted hnext
    exact ⟨hlast, by omega⟩

/-- Entries are only lost. -/
theorem lost (hshrinks : ns.Shrinks next removed released) {key : String} {entry : Entry}
    (hentry : next.entries[key]? = some entry) : ns.entries[key]? = some entry := by
  by_cases hkey : key ∈ removed
  · rw [hshrinks.gone key hkey] at hentry
    cases hentry
  · rw [← hshrinks.kept key hkey]
    exact hentry

end Namespace.Shrinks

theorem Namespace.remove_of_none {ns : Namespace} {key : String}
    (hentry : ns.entries[key]? = none) : ns.remove key = (ns, none) := by
  unfold Namespace.remove
  rw [hentry]

theorem Namespace.remove_snd_of_some {ns : Namespace} {key : String} {entry : Entry}
    (hentry : ns.entries[key]? = some entry) :
    (ns.remove key).2 = some (charge key entry.value) := by
  unfold Namespace.remove
  rw [hentry]

theorem Namespace.Sound.remove {ns : Namespace} (hsound : ns.Sound) {key : String}
    {entry : Entry} (hentry : ns.entries[key]? = some entry) :
    ns.Shrinks (ns.remove key).1 [key] (charge key entry.value) := by
  have hremove : (ns.remove key).1 =
      { ns with
        entries := ns.entries.erase key
        byAccess := ns.byAccess.erase entry.stamp
        byExpiry := ns.byExpiry.erase (entry.expiresAtMillis, key)
        bytes := ns.bytes - charge key entry.value } := by
    unfold Namespace.remove
    rw [hentry]
  have hsize : (ns.entries.erase key).size + 1 = ns.entries.size := by
    rw [← total_one_eq_size, ← total_one_eq_size, total_erase (fun _ _ => 1) hentry]
    omega
  -- another key keeps its entry, and its own stamp
  have hother : ∀ (other : String) (found : Entry), (ns.entries.erase key)[other]? = some found ↔
      other ≠ key ∧ ns.entries[other]? = some found := by
    intro other found
    by_cases hkey : key = other
    · subst hkey
      simp
    · rw [getElem?_erase_of_ne _ hkey]
      simp [Ne.symm hkey]
  rw [hremove]
  constructor
  · rfl
  · intro other hmem
    rw [List.mem_singleton] at hmem
    subst hmem
    simp [hentry]
  · intro other hmem
    rw [List.mem_singleton] at hmem
    subst hmem
    exact getElem?_erase_self _ _
  · intro other hmem
    rw [List.mem_singleton] at hmem
    exact getElem?_erase_of_ne _ (Ne.symm hmem)
  · exact List.nodup_singleton key
  · exact hsize
  · constructor
    · intro stamp other haccess
      simp only [] at haccess
      by_cases hstamp : entry.stamp = stamp
      · subst hstamp
        rw [getElem?_erase_self] at haccess
        cases haccess
      · rw [getElem?_erase_of_ne _ hstamp] at haccess
        obtain ⟨found, hfound, hfoundStamp⟩ := hsound.access stamp other haccess
        refine ⟨found, (hother other found).mpr ⟨?_, hfound⟩, hfoundStamp⟩
        intro heq
        subst heq
        rw [hentry, Option.some.injEq] at hfound
        subst hfound
        exact hstamp hfoundStamp
    · intro expiresAt other
      simp only [TreeMap.mem_erase, ne_eq, LawfulEqCmp.compare_eq_iff_eq, hsound.expiry, hother]
      constructor
      · rintro ⟨hne, found, hfound, hexpires⟩
        refine ⟨found, ⟨?_, hfound⟩, hexpires⟩
        intro heq
        subst heq
        rw [hentry, Option.some.injEq] at hfound
        subst hfound
        exact hne (by rw [hexpires])
      · rintro ⟨found, ⟨hne, hfound⟩, hexpires⟩
        refine ⟨?_, found, hfound, hexpires⟩
        intro heq
        rw [Prod.mk.injEq] at heq
        exact hne heq.2.symm
  · intro haccounted
    have hbytes := haccounted.bytes
    rw [total_erase (fun key entry => charge key entry.value) hentry] at hbytes
    refine ⟨⟨?_, by simp only []; omega⟩, by simp only []; omega⟩
    intro other found hfound
    obtain ⟨hne, hfound⟩ := (hother other found).mp hfound
    have haccess := haccounted.access other found hfound
    have hstamp : entry.stamp ≠ found.stamp := by
      intro heq
      have hown := haccounted.access key entry hentry
      rw [heq, haccess, Option.some.injEq] at hown
      exact hne hown
    simp only []
    rw [getElem?_erase_of_ne _ hstamp]
    exact haccess

theorem head_toList_mem {κ α : Type} [Ord κ] [TransOrd κ] [LawfulEqOrd κ] {tree : TreeMap κ α}
    {key : κ} {value : α} (hhead : tree.toList.head? = some (key, value)) :
    tree[key]? = some value := by
  rw [← TreeMap.mem_toList_iff_getElem?_eq_some]
  exact List.mem_of_mem_head? hhead

/-- Evicting removes one entry, or finds none. -/
theorem Namespace.Sound.evictOne {ns : Namespace} (hsound : ns.Sound) :
    (ns.evictOne.2 = none ∧ ns.byAccess.toList = []) ∨
      ∃ key released, ns.evictOne.2 = some released ∧
        ns.Shrinks ns.evictOne.1 [key] released := by
  unfold Namespace.evictOne
  cases hhead : ns.byAccess.toList.head? with
  | none => exact Or.inl ⟨rfl, List.head?_eq_none_iff.mp hhead⟩
  | some access =>
    obtain ⟨stamp, key⟩ := access
    obtain ⟨entry, hentry, -⟩ := hsound.access stamp key (head_toList_mem hhead)
    exact Or.inr ⟨key, charge key entry.value, Namespace.remove_snd_of_some hentry,
      hsound.remove hentry⟩

/-- Sweeping removes entries that have expired, and counts them. -/
theorem Namespace.Sound.sweep (nowMillis left : ℕ) :
    ∀ {ns : Namespace}, ns.Sound →
      ∃ removed, removed.length = (Namespace.sweep nowMillis left ns).2.1 ∧
        ns.Shrinks (Namespace.sweep nowMillis left ns).1 removed
          (Namespace.sweep nowMillis left ns).2.2 ∧
        ∀ key ∈ removed, ∃ entry : Entry, ns.entries[key]? = some entry ∧
          entry.expiresAtMillis ≤ nowMillis := by
  induction left with
  | zero =>
    intro ns hsound
    exact ⟨[], rfl, Namespace.Shrinks.refl hsound, by simp⟩
  | succ left ih =>
    intro ns hsound
    unfold Namespace.sweep
    cases hhead : ns.byExpiry.toList.head? with
    | none => exact ⟨[], rfl, Namespace.Shrinks.refl hsound, by simp⟩
    | some found =>
      obtain ⟨⟨expiresAt, key⟩, value⟩ := found
      simp only []
      by_cases hlater : expiresAt > nowMillis
      · rw [if_pos hlater]
        exact ⟨[], rfl, Namespace.Shrinks.refl hsound, by simp⟩
      · rw [if_neg hlater]
        have hmem : (expiresAt, key) ∈ ns.byExpiry := by
          rw [← TreeMap.isSome_getElem?_iff_mem, head_toList_mem hhead]
          rfl
        obtain ⟨entry, hentry, hexpires⟩ := (hsound.expiry expiresAt key).mp hmem
        have hremove := hsound.remove hentry
        obtain ⟨removed, hlength, hshrinks, hexpired⟩ := ih hremove.sound
        refine ⟨key :: removed, ?_, ?_, ?_⟩
        · rw [List.length_cons, hlength]
        · have htrans := hremove.trans hshrinks
          rw [List.singleton_append, add_comm] at htrans
          rw [Namespace.remove_snd_of_some hentry]
          exact htrans
        · intro other hother
          rcases List.mem_cons.mp hother with heq | hlate
          · subst heq
            exact ⟨entry, hentry, by omega⟩
          · obtain ⟨found, hfound, hpast⟩ := hexpired other hlate
            exact ⟨found, hremove.lost hfound, hpast⟩

/-! ## The whole state -/

/-- The entry of a namespace under a key. -/
def State.entry (state : State) (name key : String) : Option Entry :=
  state.namespaces[name]?.bind fun ns => ns.entries[key]?

def State.Sound (state : State) : Prop :=
  ∀ (name : String) (ns : Namespace), state.namespaces[name]? = some ns → ns.Sound

/-- The representation invariant: every index describes the entries, every bound
holds, and the totals are the sums over the namespaces. -/
structure Represents (namespaces : TreeMap String Namespace)
    (totalEntries totalBytes maxTotalEntries maxTotalBytes stamp : ℕ) : Prop where
  sound : ∀ (name : String) (ns : Namespace), namespaces[name]? = some ns → ns.Sound
  accounted : ∀ (name : String) (ns : Namespace), namespaces[name]? = some ns → ns.Accounted
  bounds : ∀ (name : String) (ns : Namespace), namespaces[name]? = some ns →
    ns.entries.size ≤ ns.policy.maxEntries ∧ ns.bytes ≤ ns.policy.maxBytes
  distinct : ∀ (name other : String) (ns ons : Namespace) (key otherKey : String)
      (entry found : Entry),
    namespaces[name]? = some ns → namespaces[other]? = some ons →
    ns.entries[key]? = some entry → ons.entries[otherKey]? = some found →
    entry.stamp = found.stamp → name = other ∧ key = otherKey
  entries : totalEntries = total (fun _ ns => ns.entries.size) namespaces
  bytes : totalBytes = total (fun _ ns => ns.bytes) namespaces
  entriesBound : totalEntries ≤ maxTotalEntries
  bytesBound : totalBytes ≤ maxTotalBytes
  stamps : ∀ (name : String) (ns : Namespace) (key : String) (entry : Entry),
    namespaces[name]? = some ns → ns.entries[key]? = some entry → entry.stamp ≤ stamp
  policies : ∀ (name : String) (ns : Namespace), namespaces[name]? = some ns →
    ns.policy.maxBytes < wordCount - 1 ∧ maxTotalEntries < wordCount - 1 ∧
      maxTotalBytes < wordCount - 1

def State.Represents (state : State) (stamp : ℕ) : Prop :=
  Cache.Represents state.namespaces state.totalEntries state.totalBytes state.maxTotalEntries
    state.maxTotalBytes stamp

theorem getElem?_setNamespace (state : State) (name : String) (ns : Namespace) :
    (state.setNamespace name ns).namespaces[name]? = some ns :=
  getElem?_insert_self _ _ _

theorem getElem?_setNamespace_of_ne (state : State) {name other : String} (hne : name ≠ other)
    (ns : Namespace) :
    (state.setNamespace name ns).namespaces[other]? = state.namespaces[other]? :=
  getElem?_insert_of_ne _ hne _

/-- After a namespace changes, each namespace is the changed one or an old one. -/
theorem setNamespace_cases {state : State} {name : String} {ns : Namespace} {other : String}
    {found : Namespace} (hfound : (state.setNamespace name ns).namespaces[other]? = some found) :
    (other = name ∧ found = ns) ∨ (other ≠ name ∧ state.namespaces[other]? = some found) := by
  by_cases hname : name = other
  · subst hname
    rw [getElem?_setNamespace, Option.some.injEq] at hfound
    exact Or.inl ⟨rfl, hfound.symm⟩
  · rw [getElem?_setNamespace_of_ne state hname] at hfound
    exact Or.inr ⟨Ne.symm hname, hfound⟩

theorem State.Sound.setNamespace {state : State} (hsound : state.Sound) (name : String)
    {ns : Namespace} (hns : ns.Sound) : (state.setNamespace name ns).Sound := by
  intro other found hfound
  rcases setNamespace_cases hfound with ⟨-, heq⟩ | ⟨-, hold⟩
  · rw [heq]
    exact hns
  · exact hsound other found hold

/-- One namespace changes: each of its entries is an old one, or the entry of `own`
with a stamp above all others, and the totals follow. -/
theorem State.Represents.change (own : String) {state after : State} {stamp fresh : ℕ}
    {name : String} {ns next : Namespace} (hstate : state.Represents stamp) (hfresh : stamp ≤ fresh)
    (hns : state.namespaces[name]? = some ns)
    (hafter : after.namespaces = (state.setNamespace name next).namespaces)
    (hlimits : after.maxTotalEntries = state.maxTotalEntries ∧
      after.maxTotalBytes = state.maxTotalBytes)
    (hsound : next.Sound) (haccounted : next.Accounted) (hpolicy : next.policy = ns.policy)
    (hbounds : next.entries.size ≤ ns.policy.maxEntries ∧ next.bytes ≤ ns.policy.maxBytes)
    (hentries : after.totalEntries + ns.entries.size = state.totalEntries + next.entries.size)
    (hbytes : after.totalBytes + ns.bytes = state.totalBytes + next.bytes)
    (htotals : after.totalEntries ≤ state.maxTotalEntries ∧
      after.totalBytes ≤ state.maxTotalBytes)
    (horigin : ∀ (key : String) (entry : Entry), next.entries[key]? = some entry →
      ns.entries[key]? = some entry ∨ (key = own ∧ entry.stamp = fresh ∧ stamp < fresh)) :
    after.Represents fresh := by
  -- every entry after the change is an old one or the fresh one
  have hcases : ∀ {other : String} {found : Namespace} {key : String} {entry : Entry},
      (state.setNamespace name next).namespaces[other]? = some found →
      found.entries[key]? = some entry →
      (∃ before : Namespace, state.namespaces[other]? = some before ∧
        before.entries[key]? = some entry) ∨
      (other = name ∧ key = own ∧ entry.stamp = fresh ∧ stamp < fresh) := by
    intro other found key entry hfound hentry
    rcases setNamespace_cases hfound with ⟨hname, heq⟩ | ⟨-, hsame⟩
    · subst hname heq
      rcases horigin key entry hentry with hold | hown
      · exact Or.inl ⟨ns, hns, hold⟩
      · exact Or.inr ⟨rfl, hown⟩
    · exact Or.inl ⟨found, hsame, hentry⟩
  have hentriesTotal := total_insert_old (fun _ ns => ns.entries.size) hns next
  have hbytesTotal := total_insert_old (fun _ ns => ns.bytes) hns next
  have hentriesOld := hstate.entries
  have hbytesOld := hstate.bytes
  have hinsert : after.namespaces = state.namespaces.insert name next := hafter
  unfold State.Represents
  rw [hlimits.1, hlimits.2, hafter]
  constructor
  · exact State.Sound.setNamespace hstate.sound name hsound
  · intro other found hfound
    rcases setNamespace_cases hfound with ⟨-, heq⟩ | ⟨-, hsame⟩
    · rw [heq]
      exact haccounted
    · exact hstate.accounted other found hsame
  · intro other found hfound
    rcases setNamespace_cases hfound with ⟨-, heq⟩ | ⟨-, hsame⟩
    · rw [heq, hpolicy]
      exact hbounds
    · exact hstate.bounds other found hsame
  · intro first second firstNs secondNs key otherKey entry found hfirst hsecond hentry hfound hsame
    rcases hcases hfirst hentry with ⟨before, hbefore, hold⟩ | ⟨hname, hkey, hstamp, hlt⟩
    · have hle := hstate.stamps first before key entry hbefore hold
      rcases hcases hsecond hfound with ⟨other, hother, hold'⟩ | ⟨-, -, hstamp', hlt'⟩
      · exact hstate.distinct first second before other key otherKey entry found hbefore hother
          hold hold' hsame
      · omega
    · rcases hcases hsecond hfound with ⟨other, hother, hold'⟩ | ⟨hname', hkey', -, -⟩
      · have hle := hstate.stamps second other otherKey found hother hold'
        omega
      · rw [hname, hname', hkey, hkey']
        exact ⟨rfl, rfl⟩
  · simp only [State.setNamespace]
    omega
  · simp only [State.setNamespace]
    omega
  · exact htotals.1
  · exact htotals.2
  · intro other found key entry hfound hentry
    rcases hcases hfound hentry with ⟨before, hbefore, hold⟩ | ⟨-, -, hstamp, -⟩
    · exact (hstate.stamps other before key entry hbefore hold).trans hfresh
    · omega
  · intro other found hfound
    rcases setNamespace_cases hfound with ⟨-, heq⟩ | ⟨-, hsame⟩
    · rw [heq, hpolicy]
      exact hstate.policies name ns hns
    · exact hstate.policies other found hsame

/-- Removing entries of one namespace, with the totals released, keeps the
representation. -/
theorem State.Represents.shrink {state : State} {stamp : ℕ} (hstate : state.Represents stamp)
    {name : String} {ns next : Namespace} {removed : List String} {released : ℕ}
    (hns : state.namespaces[name]? = some ns) (hshrinks : ns.Shrinks next removed released) :
    ((state.setNamespace name next).release removed.length released).Represents stamp := by
  obtain ⟨hnext, hbytes⟩ := hshrinks.accounted (hstate.accounted name ns hns)
  obtain ⟨hmaxEntries, hmaxBytes⟩ := hstate.bounds name ns hns
  have hsize := hshrinks.size
  have hentriesPart := weight_le_total (fun _ ns => ns.entries.size) hns
  have hbytesPart := weight_le_total (fun _ ns => ns.bytes) hns
  have hentries := hstate.entries
  have hbytesEq := hstate.bytes
  have hentriesBound := hstate.entriesBound
  have hbytesBound := hstate.bytesBound
  refine State.Represents.change name hstate le_rfl hns rfl ⟨rfl, rfl⟩ hshrinks.sound hnext
    hshrinks.policy ⟨by omega, by omega⟩ ?_ ?_ ⟨?_, ?_⟩ ?_
  · simp only [State.release, State.setNamespace]
    omega
  · simp only [State.release, State.setNamespace]
    omega
  · simp only [State.release, State.setNamespace]
    omega
  · simp only [State.release, State.setNamespace]
    omega
  · intro key entry hentry
    exact Or.inl (hshrinks.lost hentry)

/-! ## Losing entries -/

/-- A state that has lost the entries of some pairs of a namespace and a key, and no
other entry. -/
structure State.Loses (before after : State) (pairs : List (String × String)) : Prop where
  policies : ∀ name : String, after.namespaces[name]?.map Namespace.policy =
    before.namespaces[name]?.map Namespace.policy
  limits : after.maxTotalEntries = before.maxTotalEntries ∧
    after.maxTotalBytes = before.maxTotalBytes
  present : ∀ name key, (name, key) ∈ pairs → before.entry name key ≠ none
  gone : ∀ name key, (name, key) ∈ pairs → after.entry name key = none
  kept : ∀ name key, (name, key) ∉ pairs → after.entry name key = before.entry name key
  nodup : pairs.Nodup
  sound : after.Sound
  represents : ∀ stamp, before.Represents stamp → after.Represents stamp

namespace State.Loses

variable {before after : State} {pairs : List (String × String)}

theorem refl {state : State} (hsound : state.Sound) : state.Loses state [] where
  policies := fun _ => rfl
  limits := ⟨rfl, rfl⟩
  present := by simp
  gone := by simp
  kept := by simp
  nodup := List.nodup_nil
  sound := hsound
  represents := fun _ hrepresents => hrepresents

theorem trans {last : State} {others : List (String × String)} (hfirst : before.Loses after pairs)
    (hsecond : after.Loses last others) : before.Loses last (pairs ++ others) where
  policies := fun name => (hsecond.policies name).trans (hfirst.policies name)
  limits := ⟨hsecond.limits.1.trans hfirst.limits.1, hsecond.limits.2.trans hfirst.limits.2⟩
  present := by
    intro name key hpair
    by_cases hearly : (name, key) ∈ pairs
    · exact hfirst.present name key hearly
    · rw [← hfirst.kept name key hearly]
      rcases List.mem_append.mp hpair with hother | hlate
      · exact absurd hother hearly
      · exact hsecond.present name key hlate
  gone := by
    intro name key hpair
    by_cases hlate : (name, key) ∈ others
    · exact hsecond.gone name key hlate
    · rw [hsecond.kept name key hlate]
      rcases List.mem_append.mp hpair with hearly | hother
      · exact hfirst.gone name key hearly
      · exact absurd hother hlate
  kept := by
    intro name key hpair
    rw [List.mem_append, not_or] at hpair
    rw [hsecond.kept name key hpair.2, hfirst.kept name key hpair.1]
  nodup := by
    refine List.Nodup.append hfirst.nodup hsecond.nodup ?_
    rintro ⟨name, key⟩ hearly hlate
    exact hsecond.present name key hlate (hfirst.gone name key hearly)
  sound := hsecond.sound
  represents := fun stamp hrepresents =>
    hsecond.represents stamp (hfirst.represents stamp hrepresents)

theorem lost (hloses : before.Loses after pairs) {name key : String} {entry : Entry}
    (hentry : after.entry name key = some entry) : before.entry name key = some entry := by
  by_cases hpair : (name, key) ∈ pairs
  · rw [hloses.gone name key hpair] at hentry
    cases hentry
  · rw [← hloses.kept name key hpair]
    exact hentry

/-- The counters play no part. -/
theorem congr {other : State} (hloses : before.Loses after pairs)
    (hnamespaces : other.namespaces = after.namespaces)
    (hentries : other.totalEntries = after.totalEntries)
    (hbytes : other.totalBytes = after.totalBytes)
    (hmaxEntries : other.maxTotalEntries = after.maxTotalEntries)
    (hmaxBytes : other.maxTotalBytes = after.maxTotalBytes) : before.Loses other pairs where
  policies := by
    intro name
    rw [hnamespaces]
    exact hloses.policies name
  limits := by
    rw [hmaxEntries, hmaxBytes]
    exact hloses.limits
  present := hloses.present
  gone := by
    unfold State.entry
    rw [hnamespaces]
    exact hloses.gone
  kept := by
    unfold State.entry
    rw [hnamespaces]
    exact hloses.kept
  nodup := hloses.nodup
  sound := by
    unfold State.Sound
    rw [hnamespaces]
    exact hloses.sound
  represents := by
    intro stamp hrepresents
    unfold State.Represents
    rw [hnamespaces, hentries, hbytes, hmaxEntries, hmaxBytes]
    exact hloses.represents stamp hrepresents

end State.Loses

theorem State.entry_of_namespace {state : State} {name : String} {ns : Namespace}
    (hns : state.namespaces[name]? = some ns) (key : String) :
    state.entry name key = ns.entries[key]? := by
  unfold State.entry
  rw [hns]
  rfl

theorem State.Sound.shrink {state : State} (hsound : state.Sound) {name : String}
    {ns next : Namespace} {removed : List String} {released : ℕ}
    (hns : state.namespaces[name]? = some ns) (hshrinks : ns.Shrinks next removed released) :
    state.Loses ((state.setNamespace name next).release removed.length released)
      (removed.map fun key => (name, key)) := by
  have hnext : ((state.setNamespace name next).release removed.length
      released).namespaces[name]? = some next := getElem?_setNamespace state name next
  constructor
  · intro other
    by_cases hname : name = other
    · subst hname
      rw [hnext, hns, Option.map_some, Option.map_some, hshrinks.policy]
    · have hother : ((state.setNamespace name next).release removed.length
          released).namespaces[other]? = state.namespaces[other]? :=
        getElem?_setNamespace_of_ne state hname next
      rw [hother]
  · exact ⟨rfl, rfl⟩
  · intro other key hpair
    obtain ⟨own, hown, heq⟩ := List.mem_map.mp hpair
    rw [Prod.mk.injEq] at heq
    obtain ⟨hname, hkey⟩ := heq
    subst hname hkey
    rw [State.entry_of_namespace hns]
    exact hshrinks.present own hown
  · intro other key hpair
    obtain ⟨own, hown, heq⟩ := List.mem_map.mp hpair
    rw [Prod.mk.injEq] at heq
    obtain ⟨hname, hkey⟩ := heq
    subst hname hkey
    rw [State.entry_of_namespace hnext]
    exact hshrinks.gone own hown
  · intro other key hpair
    by_cases hname : name = other
    · subst hname
      rw [State.entry_of_namespace hnext, State.entry_of_namespace hns]
      apply hshrinks.kept
      intro hmem
      exact hpair (List.mem_map.mpr ⟨key, hmem, rfl⟩)
    · unfold State.entry
      have hother : ((state.setNamespace name next).release removed.length
          released).namespaces[other]? = state.namespaces[other]? :=
        getElem?_setNamespace_of_ne state hname next
      rw [hother]
  · refine hshrinks.nodup.map ?_
    intro left right heq
    exact (Prod.mk.inj heq).2
  · exact State.Sound.setNamespace hsound name hshrinks.sound
  · intro stamp hrepresents
    exact hrepresents.shrink hns hshrinks

/-- Entries lost to eviction, all counted. -/
structure State.Evicts (before after : State) (evicted : List (String × String)) : Prop where
  loses : before.Loses after evicted
  evictions : after.evictions = saturatingAdd before.evictions evicted.length
  expirations : after.expirations = before.expirations

namespace State.Evicts

theorem refl {state : State} (hsound : state.Sound) (hcount : state.evictions < wordCount) :
    state.Evicts state [] where
  loses := .refl hsound
  evictions := (saturatingAdd_zero hcount).symm
  expirations := rfl

theorem trans {before after last : State} {evicted others : List (String × String)}
    (hfirst : before.Evicts after evicted) (hsecond : after.Evicts last others) :
    before.Evicts last (evicted ++ others) where
  loses := hfirst.loses.trans hsecond.loses
  evictions := by
    rw [hsecond.evictions, hfirst.evictions, saturatingAdd_saturatingAdd, List.length_append]
  expirations := hsecond.expirations.trans hfirst.expirations

end State.Evicts

/-- Evicting globally takes one entry, or finds that there is none. -/
theorem State.Sound.evictGlobally {state : State} (hsound : state.Sound) :
    (state.evictGlobally.2 = none ∧ state.oldest = []) ∨
      ∃ pair released, state.evictGlobally.2 = some released ∧
        state.Evicts (state.evictGlobally.1.noteEviction released) [pair] := by
  unfold State.evictGlobally
  cases hoption : state.oldest.argmin Prod.fst with
  | none => exact Or.inl ⟨rfl, List.argmin_eq_none.mp hoption⟩
  | some target =>
    obtain ⟨stamp, name⟩ := target
    have hmem := List.argmin_mem hoption
    obtain ⟨⟨found, ns⟩, hentry, hfirst⟩ := List.mem_filterMap.mp hmem
    rw [TreeMap.mem_toList_iff_getElem?_eq_some] at hentry
    obtain ⟨access, haccess, heq⟩ := Option.map_eq_some_iff.mp hfirst
    rw [Prod.mk.injEq] at heq
    obtain ⟨-, hname⟩ := heq
    subst hname
    right
    simp only [hentry]
    rcases (hsound found ns hentry).evictOne with ⟨-, hempty⟩ | ⟨key, released, hsome, hshrinks⟩
    · rw [hempty] at haccess
      cases haccess
    · refine ⟨(found, key), released, hsome, ?_, rfl, rfl⟩
      exact (hsound.shrink hentry hshrinks).congr rfl rfl rfl rfl rfl

/-- Evicting from the namespace of a write takes one of its entries, or finds that
there is none. -/
theorem State.Sound.evictOne {state : State} (hsound : state.Sound) {name : String}
    {ns : Namespace} (hns : state.namespaces[name]? = some ns) {released : ℕ}
    (hreleased : ns.evictOne.2 = some released) :
    ∃ key, state.Evicts ((state.setNamespace name ns.evictOne.1).noteEviction released)
      [(name, key)] := by
  rcases (hsound name ns hns).evictOne with ⟨hnone, -⟩ | ⟨key, found, hsome, hshrinks⟩
  · rw [hreleased] at hnone
    cases hnone
  · rw [hreleased, Option.some.injEq] at hsome
    subst hsome
    refine ⟨key, ?_, rfl, rfl⟩
    exact (hsound.shrink hns hshrinks).congr rfl rfl rfl rfl rfl

/-- The room that a write needs. -/
def State.Fits (state : State) (name : String) (charge : ℕ) : Prop :=
  ∃ ns : Namespace, state.namespaces[name]? = some ns ∧
    ns.entries.size < ns.policy.maxEntries ∧
    saturatingAdd ns.bytes charge ≤ ns.policy.maxBytes ∧
    state.totalEntries < state.maxTotalEntries ∧
    saturatingAdd state.totalBytes charge ≤ state.maxTotalBytes

/-- What `makeRoom` does: it evicts, counting each eviction, and succeeds only with
room for the entry. -/
theorem State.Sound.makeRoom (name : String) (charge : ℕ) {state : State} (hsound : state.Sound)
    (hcount : state.evictions < wordCount) :
    ∃ evicted, state.Evicts (state.makeRoom name charge).2 evicted ∧
      ((state.makeRoom name charge).1 = .ok () →
        (state.makeRoom name charge).2.Fits name charge) := by
  -- the loop makes progress on the number of live entries
  fun_induction State.makeRoom name charge state with
  | case1 state hnone => exact ⟨[], .refl hsound hcount, by simp⟩
  | case2 state ns hns hfits hglobal =>
    exact ⟨[], .refl hsound hcount, fun _ => ⟨ns, hns, hfits.1, hfits.2, hglobal.1, hglobal.2⟩⟩
  | case3 state ns hns hfits hglobal hnone => exact ⟨[], .refl hsound hcount, by simp⟩
  | case4 state ns hns hfits hglobal released hreleased ih =>
    rcases hsound.evictGlobally with ⟨hnone, -⟩ | ⟨pair, found, hsome, hevicts⟩
    · rw [hreleased] at hnone
      cases hnone
    · rw [hreleased, Option.some.injEq] at hsome
      subst hsome
      have hnext : (state.evictGlobally.1.noteEviction released).evictions < wordCount := by
        rw [hevicts.evictions]
        exact saturatingAdd_lt _ _
      obtain ⟨evicted, hrest, hok⟩ := ih hevicts.loses.sound hnext
      exact ⟨[pair] ++ evicted, hevicts.trans hrest, hok⟩
  | case5 state ns hns hfull hnone => exact ⟨[], .refl hsound hcount, by simp⟩
  | case6 state ns hns hfull released hreleased ih =>
    obtain ⟨key, hevicts⟩ := hsound.evictOne hns hreleased
    have hnext : ((state.setNamespace name ns.evictOne.1).noteEviction released).evictions <
        wordCount := by
      rw [hevicts.evictions]
      exact saturatingAdd_lt _ _
    obtain ⟨evicted, hrest, hok⟩ := ih hevicts.loses.sound hnext
    exact ⟨[(name, key)] ++ evicted, hevicts.trans hrest, hok⟩

/-! ## Clearing and storing -/

theorem State.Loses.eq_none {before after : State} {pairs : List (String × String)}
    (hloses : before.Loses after pairs) {name key : String}
    (hentry : before.entry name key = none) : after.entry name key = none := by
  cases hafter : after.entry name key with
  | none => rfl
  | some entry =>
    rw [hloses.lost hafter] at hentry
    cases hentry

/-- What a write clears first: entries that have expired, all counted, and the entry
that it replaces. -/
structure State.Clears (before after : State) (name key : String) (nowMillis : ℕ)
    (expired replaced : List (String × String)) : Prop where
  loses : before.Loses after (expired ++ replaced)
  past : ∀ other otherKey, (other, otherKey) ∈ expired →
    ∃ entry, before.entry other otherKey = some entry ∧ entry.expiresAtMillis ≤ nowMillis
  own : ∀ pair ∈ replaced, pair = (name, key)
  absent : after.entry name key = none
  evictions : after.evictions = before.evictions
  expirations : after.expirations = saturatingAdd before.expirations expired.length

theorem State.Sound.clearFor {state : State} (hsound : state.Sound) {name : String}
    {ns : Namespace} (hns : state.namespaces[name]? = some ns) (key : String) (nowMillis : ℕ) :
    ∃ expired replaced,
      state.Clears (state.clearFor name key ns nowMillis) name key nowMillis expired replaced := by
  obtain ⟨removed, hlength, hshrinks, hpast⟩ :=
    Namespace.Sound.sweep nowMillis maxSweepPerOperation (hsound name ns hns)
  have hswept : state.Loses ((state.setNamespace name (ns.sweepExpired nowMillis).1).noteSweep
      (ns.sweepExpired nowMillis).2.1 (ns.sweepExpired nowMillis).2.2)
      (removed.map fun key => (name, key)) := by
    have hloses := hsound.shrink hns hshrinks
    rw [hlength] at hloses
    exact hloses.congr rfl rfl rfl rfl rfl
  have hnext : ((state.setNamespace name (ns.sweepExpired nowMillis).1).noteSweep
      (ns.sweepExpired nowMillis).2.1 (ns.sweepExpired nowMillis).2.2).namespaces[name]? =
      some (ns.sweepExpired nowMillis).1 := getElem?_setNamespace state name _
  have hexpired : ∀ other otherKey, (other, otherKey) ∈ removed.map (fun key => (name, key)) →
      ∃ entry, state.entry other otherKey = some entry ∧ entry.expiresAtMillis ≤ nowMillis := by
    intro other otherKey hpair
    obtain ⟨own, hown, heq⟩ := List.mem_map.mp hpair
    rw [Prod.mk.injEq] at heq
    obtain ⟨hname, hkey⟩ := heq
    subst hname hkey
    rw [State.entry_of_namespace hns]
    exact hpast own hown
  have hcount : (ns.sweepExpired nowMillis).2.1 =
      (removed.map fun key => (name, key)).length := by
    rw [List.length_map, hlength]
    rfl
  unfold State.clearFor
  simp only []
  cases hentry : (ns.sweepExpired nowMillis).1.entries[key]? with
  | none =>
    rw [Namespace.remove_of_none hentry]
    refine ⟨removed.map fun key => (name, key), [], ?_, hexpired, by simp, ?_, rfl, ?_⟩
    · rw [List.append_nil]
      exact hswept
    · rw [State.entry_of_namespace hnext]
      exact hentry
    · rw [← hcount]
      rfl
  | some entry =>
    have hremove := hshrinks.sound.remove hentry
    rw [Namespace.remove_snd_of_some hentry]
    simp only []
    have hreplaced := hswept.sound.shrink hnext hremove
    refine ⟨removed.map fun key => (name, key), [(name, key)], ?_, hexpired, by simp, ?_, rfl, ?_⟩
    · exact hswept.trans hreplaced
    · exact hreplaced.gone name key (List.mem_singleton.mpr rfl)
    · rw [← hcount]
      rfl

theorem Namespace.Sound.stored {ns : Namespace} (hsound : ns.Sound) {key : String}
    (habsent : ns.entries[key]? = none) (value : String) (expiresAtMillis stamp : ℕ) :
    (ns.stored key value expiresAtMillis stamp).Sound := by
  have hother : ∀ {other : String} {found : Entry}, ns.entries[other]? = some found →
      (ns.stored key value expiresAtMillis stamp).entries[other]? = some found := by
    intro other found hfound
    have hne : key ≠ other := by
      intro heq
      rw [heq, hfound] at habsent
      cases habsent
    rw [← hfound]
    exact getElem?_insert_of_ne _ hne _
  have hown : (ns.stored key value expiresAtMillis stamp).entries[key]? =
      some { value, expiresAtMillis, stamp } := getElem?_insert_self _ _ _
  constructor
  · intro at_ other haccess
    by_cases hstamp : stamp = at_
    · subst hstamp
      have hsame : (ns.stored key value expiresAtMillis stamp).byAccess[stamp]? = some key :=
        getElem?_insert_self _ _ _
      rw [hsame, Option.some.injEq] at haccess
      subst haccess
      exact ⟨_, hown, rfl⟩
    · have hold : (ns.stored key value expiresAtMillis stamp).byAccess[at_]? =
          ns.byAccess[at_]? := getElem?_insert_of_ne _ hstamp _
      rw [hold] at haccess
      obtain ⟨entry, hentry, hat⟩ := hsound.access at_ other haccess
      exact ⟨entry, hother hentry, hat⟩
  · intro expiresAt other
    have hmem : (expiresAt, other) ∈ (ns.stored key value expiresAtMillis stamp).byExpiry ↔
        (expiresAtMillis, key) = (expiresAt, other) ∨ (expiresAt, other) ∈ ns.byExpiry := by
      unfold Namespace.stored
      simp only [TreeMap.mem_insert, LawfulEqCmp.compare_eq_iff_eq]
    rw [hmem, hsound.expiry, Prod.mk.injEq]
    constructor
    · rintro (⟨hexpires, hkey⟩ | ⟨entry, hentry, hexpires⟩)
      · subst hexpires hkey
        exact ⟨_, hown, rfl⟩
      · exact ⟨entry, hother hentry, hexpires⟩
    · rintro ⟨entry, hentry, hexpires⟩
      by_cases hkey : key = other
      · subst hkey
        rw [hown, Option.some.injEq] at hentry
        subst hentry
        exact Or.inl ⟨hexpires, rfl⟩
      · right
        refine ⟨entry, ?_, hexpires⟩
        rw [← hentry]
        exact (getElem?_insert_of_ne _ hkey _).symm

/-- An entry with a stamp that no access has is found by it, and its charge is
counted. -/
theorem Namespace.Accounted.stored {ns : Namespace} (haccounted : ns.Accounted) {key : String}
    (habsent : ns.entries[key]? = none) (value : String) (expiresAtMillis : ℕ) {stamp : ℕ}
    (hfresh : ∀ (other : String) (entry : Entry), ns.entries[other]? = some entry →
      entry.stamp ≠ stamp)
    (hbytes : saturatingAdd ns.bytes (charge key value) = ns.bytes + charge key value) :
    (ns.stored key value expiresAtMillis stamp).Accounted := by
  constructor
  · intro other entry hentry
    by_cases hkey : key = other
    · subst hkey
      have hown : (ns.stored key value expiresAtMillis stamp).entries[key]? =
          some { value, expiresAtMillis, stamp } := getElem?_insert_self _ _ _
      rw [hown, Option.some.injEq] at hentry
      rw [← hentry]
      exact getElem?_insert_self _ _ _
    · have hold : (ns.stored key value expiresAtMillis stamp).entries[other]? =
          ns.entries[other]? := getElem?_insert_of_ne _ hkey _
      rw [hold] at hentry
      rw [← haccounted.access other entry hentry]
      exact getElem?_insert_of_ne _ (Ne.symm (hfresh other entry hentry)) _
  · have htotal := total_insert_new (fun key entry => charge key entry.value) habsent
      { value, expiresAtMillis, stamp }
    have hold := haccounted.bytes
    unfold Namespace.stored
    simp only [] at htotal ⊢
    rw [hbytes, htotal]
    omega

theorem Namespace.size_stored {ns : Namespace} {key : String}
    (habsent : ns.entries[key]? = none) (value : String) (expiresAtMillis stamp : ℕ) :
    (ns.stored key value expiresAtMillis stamp).entries.size = ns.entries.size + 1 := by
  unfold Namespace.stored
  simp only []
  rw [← total_one_eq_size, ← total_one_eq_size, total_insert_new (fun _ _ => 1) habsent]
  omega

/-- Storing an entry that fits keeps the representation, with the entry's stamp as
the largest. -/
theorem State.Represents.store {state : State} {old stamp : ℕ} (hstate : state.Represents old)
    (hstamp : old < stamp) {name key value : String} {expiresAtMillis : ℕ} {ns : Namespace}
    (hns : state.namespaces[name]? = some ns) (habsent : ns.entries[key]? = none)
    (hfits : state.Fits name (charge key value)) :
    (state.store name key value expiresAtMillis stamp ns).Represents stamp := by
  obtain ⟨found, hfound, hsize, hbytes, htotal, htotalBytes⟩ := hfits
  rw [hns, Option.some.injEq] at hfound
  subst hfound
  obtain ⟨hpolicy, hlimit, hlimitBytes⟩ := hstate.policies name ns hns
  have hsum := saturatingAdd_of_le hbytes hpolicy
  have htotalSum := saturatingAdd_of_le htotalBytes hlimitBytes
  have hcount := saturatingAdd_one htotal hlimit
  have hstored := Namespace.size_stored habsent value expiresAtMillis stamp
  have hfresh : ∀ (other : String) (entry : Entry), ns.entries[other]? = some entry →
      entry.stamp ≠ stamp := by
    intro other entry hentry
    have hle := hstate.stamps name ns other entry hns hentry
    omega
  have hcharge : (ns.stored key value expiresAtMillis stamp).bytes =
      saturatingAdd ns.bytes (charge key value) := rfl
  have hafter : (state.store name key value expiresAtMillis stamp ns).namespaces =
      (state.setNamespace name (ns.stored key value expiresAtMillis stamp)).namespaces := rfl
  refine State.Represents.change key hstate hstamp.le hns hafter ⟨rfl, rfl⟩
    ((hstate.sound name ns hns).stored habsent value expiresAtMillis stamp)
    ((hstate.accounted name ns hns).stored habsent value expiresAtMillis hfresh hsum) rfl
    ⟨by omega, hbytes⟩ ?_ ?_ ⟨?_, htotalBytes⟩ ?_
  · simp only [State.store]
    omega
  · simp only [State.store]
    omega
  · simp only [State.store]
    omega
  · intro other entry hentry
    by_cases hkey : key = other
    · subst hkey
      have hown : (ns.stored key value expiresAtMillis stamp).entries[key]? =
          some { value, expiresAtMillis, stamp } := getElem?_insert_self _ _ _
      rw [hown, Option.some.injEq] at hentry
      rw [← hentry]
      exact Or.inr ⟨rfl, rfl, hstamp⟩
    · left
      rw [← hentry]
      exact (getElem?_insert_of_ne _ hkey _).symm

end Krit.Cache
