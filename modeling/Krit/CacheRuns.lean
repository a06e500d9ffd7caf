import Krit.CacheInvariant

/-!
# Runs of the cache

One call changes the entry of its own pair of a namespace and a key; it takes other
entries away only by an eviction or an expiry, and it counts each of them.  From
this, one step at a time, the representation invariant holds after every run, and a
read returns only what the last write left.
-/

namespace Krit.Cache

open Std TreeTotal Machine

/-! ## Reading -/

theorem Namespace.Sound.refresh {ns : Namespace} (hsound : ns.Sound) {key : String} {entry : Entry}
    (hentry : ns.entries[key]? = some entry) (stamp : ℕ) : (ns.refresh key entry stamp).Sound := by
  have hown : (ns.refresh key entry stamp).entries[key]? = some { entry with stamp } :=
    getElem?_insert_self _ _ _
  have hother : ∀ {other : String}, key ≠ other →
      (ns.refresh key entry stamp).entries[other]? = ns.entries[other]? := by
    intro other hne
    exact getElem?_insert_of_ne _ hne _
  constructor
  · intro access other haccess
    by_cases hstamp : stamp = access
    · subst hstamp
      have hsame : (ns.refresh key entry stamp).byAccess[stamp]? = some key :=
        getElem?_insert_self _ _ _
      rw [hsame, Option.some.injEq] at haccess
      subst haccess
      exact ⟨_, hown, rfl⟩
    · have hold : (ns.refresh key entry stamp).byAccess[access]? =
          (ns.byAccess.erase entry.stamp)[access]? := getElem?_insert_of_ne _ hstamp _
      rw [hold] at haccess
      have hne : entry.stamp ≠ access := by
        intro heq
        rw [heq, getElem?_erase_self] at haccess
        cases haccess
      rw [getElem?_erase_of_ne _ hne] at haccess
      obtain ⟨found, hfound, hfoundStamp⟩ := hsound.access access other haccess
      have hkey : key ≠ other := by
        intro heq
        subst heq
        rw [hentry, Option.some.injEq] at hfound
        subst hfound
        exact hne hfoundStamp
      refine ⟨found, ?_, hfoundStamp⟩
      rw [hother hkey]
      exact hfound
  · intro expiresAt other
    have hsame : (ns.refresh key entry stamp).byExpiry = ns.byExpiry := rfl
    rw [hsame, hsound.expiry]
    by_cases hkey : key = other
    · subst hkey
      rw [hown, hentry]
      simp
    · rw [hother hkey]

theorem Namespace.Accounted.refresh {ns : Namespace} (haccounted : ns.Accounted) {key : String}
    {entry : Entry} (hentry : ns.entries[key]? = some entry) {stamp : ℕ}
    (hfresh : ∀ (other : String) (found : Entry), ns.entries[other]? = some found →
      found.stamp ≠ stamp) : (ns.refresh key entry stamp).Accounted := by
  constructor
  · intro other found hfound
    by_cases hkey : key = other
    · subst hkey
      have hown : (ns.refresh key entry stamp).entries[key]? = some { entry with stamp } :=
        getElem?_insert_self _ _ _
      rw [hown, Option.some.injEq] at hfound
      rw [← hfound]
      exact getElem?_insert_self _ _ _
    · have hold : (ns.refresh key entry stamp).entries[other]? = ns.entries[other]? :=
        getElem?_insert_of_ne _ hkey _
      rw [hold] at hfound
      have haccess := haccounted.access other found hfound
      have hstamp : entry.stamp ≠ found.stamp := by
        intro heq
        have hown := haccounted.access key entry hentry
        rw [heq, haccess, Option.some.injEq] at hown
        exact hkey hown.symm
      have hsame : (ns.refresh key entry stamp).byAccess[found.stamp]? =
          (ns.byAccess.erase entry.stamp)[found.stamp]? :=
        getElem?_insert_of_ne _ (Ne.symm (hfresh other found hfound)) _
      rw [hsame, getElem?_erase_of_ne _ hstamp]
      exact haccess
  · have htotal := total_insert_old (fun key entry => charge key entry.value) hentry
      { entry with stamp }
    have hold := haccounted.bytes
    unfold Namespace.refresh
    simp only [] at htotal ⊢
    omega

theorem Namespace.size_refresh {ns : Namespace} {key : String} {entry : Entry}
    (hentry : ns.entries[key]? = some entry) (stamp : ℕ) :
    (ns.refresh key entry stamp).entries.size = ns.entries.size := by
  have htotal := total_insert_old (fun _ _ => 1) hentry { entry with stamp }
  rw [total_one_eq_size, total_one_eq_size] at htotal
  unfold Namespace.refresh
  simp only []
  omega

theorem State.Represents.mono {state : State} {stamp fresh : ℕ} (hstate : state.Represents stamp)
    (hle : stamp ≤ fresh) : state.Represents fresh where
  sound := hstate.sound
  accounted := hstate.accounted
  bounds := hstate.bounds
  distinct := hstate.distinct
  entries := hstate.entries
  bytes := hstate.bytes
  entriesBound := hstate.entriesBound
  bytesBound := hstate.bytesBound
  stamps := by
    intro name ns key entry hns hentry
    exact (hstate.stamps name ns key entry hns hentry).trans hle
  policies := hstate.policies

theorem State.Represents.refresh {state : State} {old stamp : ℕ} (hstate : state.Represents old)
    (hstamp : old < stamp) {name key : String} {ns : Namespace} {entry : Entry}
    (hns : state.namespaces[name]? = some ns) (hentry : ns.entries[key]? = some entry) :
    (state.setNamespace name (ns.refresh key entry stamp)).Represents stamp := by
  have hfresh : ∀ (other : String) (found : Entry), ns.entries[other]? = some found →
      found.stamp ≠ stamp := by
    intro other found hfound
    have hle := hstate.stamps name ns other found hns hfound
    omega
  have hsize := Namespace.size_refresh hentry stamp
  have hbytes : (ns.refresh key entry stamp).bytes = ns.bytes := rfl
  have hbounds := hstate.bounds name ns hns
  refine State.Represents.change key hstate hstamp.le hns rfl ⟨rfl, rfl⟩
    ((hstate.sound name ns hns).refresh hentry stamp)
    ((hstate.accounted name ns hns).refresh hentry hfresh) rfl ⟨?_, ?_⟩ ?_ ?_
    ⟨hstate.entriesBound, hstate.bytesBound⟩ ?_
  · rw [hsize]
    exact hbounds.1
  · rw [hbytes]
    exact hbounds.2
  · rw [hsize]
    rfl
  · rw [hbytes]
    rfl
  · intro other found hfound
    by_cases hkey : key = other
    · subst hkey
      have hown : (ns.refresh key entry stamp).entries[key]? = some { entry with stamp } :=
        getElem?_insert_self _ _ _
      rw [hown, Option.some.injEq] at hfound
      rw [← hfound]
      exact Or.inr ⟨rfl, rfl, hstamp⟩
    · left
      rw [← hfound]
      exact (getElem?_insert_of_ne _ hkey _).symm

/-! ## One call -/

/-- The effect of a call on the pair of `name` and `key`: what it takes from other
pairs is evicted or has expired, and is counted. -/
structure State.Effect (before after : State) (name key : String) (nowMillis stamp : ℕ)
    (evicted expired : List (String × String)) : Prop where
  policies : ∀ other : String, after.namespaces[other]?.map Namespace.policy =
    before.namespaces[other]?.map Namespace.policy
  limits : after.maxTotalEntries = before.maxTotalEntries ∧
    after.maxTotalBytes = before.maxTotalBytes
  nodup : (evicted ++ expired).Nodup
  present : ∀ other otherKey, (other, otherKey) ∈ evicted ++ expired →
    before.entry other otherKey ≠ none
  past : ∀ other otherKey, (other, otherKey) ∈ expired →
    ∃ entry, before.entry other otherKey = some entry ∧ entry.expiresAtMillis ≤ nowMillis
  gone : ∀ other otherKey, (other, otherKey) ≠ (name, key) →
    (other, otherKey) ∈ evicted ++ expired → after.entry other otherKey = none
  kept : ∀ other otherKey, (other, otherKey) ≠ (name, key) →
    (other, otherKey) ∉ evicted ++ expired →
    after.entry other otherKey = before.entry other otherKey
  evictions : after.evictions = saturatingAdd before.evictions evicted.length
  expirations : after.expirations = saturatingAdd before.expirations expired.length
  sound : after.Sound
  represents : ∀ old, before.Represents old → old < stamp → after.Represents stamp

namespace State.Effect

variable {before after : State} {name key : String} {nowMillis stamp : ℕ}
  {evicted expired : List (String × String)}

/-- Entries are only lost, and all but that of the own pair are counted. -/
theorem ofLoses {pairs : List (String × String)} (hloses : before.Loses after pairs)
    (hnodup : (evicted ++ expired).Nodup) (hcounted : ∀ pair ∈ evicted ++ expired, pair ∈ pairs)
    (hown : ∀ pair ∈ pairs, pair ∈ evicted ++ expired ∨ pair = (name, key))
    (hpast : ∀ other otherKey, (other, otherKey) ∈ expired →
      ∃ entry, before.entry other otherKey = some entry ∧ entry.expiresAtMillis ≤ nowMillis)
    (hevictions : after.evictions = saturatingAdd before.evictions evicted.length)
    (hexpirations : after.expirations = saturatingAdd before.expirations expired.length) :
    before.Effect after name key nowMillis stamp evicted expired where
  policies := hloses.policies
  limits := hloses.limits
  nodup := hnodup
  present := by
    intro other otherKey hpair
    exact hloses.present other otherKey (hcounted _ hpair)
  past := hpast
  gone := by
    intro other otherKey _ hpair
    exact hloses.gone other otherKey (hcounted _ hpair)
  kept := by
    intro other otherKey hne hpair
    apply hloses.kept
    intro hlost
    rcases hown _ hlost with hcount | hsame
    · exact hpair hcount
    · exact hne hsame
  evictions := hevictions
  expirations := hexpirations
  sound := hloses.sound
  represents := by
    intro old hrepresents hlt
    exact (hloses.represents old hrepresents).mono hlt.le

/-- A change of the own entry afterwards, with the other entries, the limits and the
counters as they are. -/
theorem thenOwn {last : State}
    (heffect : before.Effect after name key nowMillis stamp evicted expired)
    {ns next : Namespace} (hns : after.namespaces[name]? = some ns)
    (hlast : last.namespaces = (after.setNamespace name next).namespaces)
    (hpolicy : next.policy = ns.policy)
    (hlimits : last.maxTotalEntries = after.maxTotalEntries ∧
      last.maxTotalBytes = after.maxTotalBytes)
    (hothers : ∀ other, other ≠ key → next.entries[other]? = ns.entries[other]?)
    (hevictions : last.evictions = after.evictions)
    (hexpirations : last.expirations = after.expirations) (hnext : next.Sound)
    (hrepresents : ∀ old, before.Represents old → old < stamp → last.Represents stamp) :
    before.Effect last name key nowMillis stamp evicted expired := by
  have hfound : last.namespaces[name]? = some next := by
    rw [hlast]
    exact getElem?_setNamespace after name next
  have hrest : ∀ other, name ≠ other → last.namespaces[other]? = after.namespaces[other]? := by
    intro other hne
    rw [hlast]
    exact getElem?_setNamespace_of_ne after hne next
  have hentry : ∀ other otherKey, (other, otherKey) ≠ (name, key) →
      last.entry other otherKey = after.entry other otherKey := by
    intro other otherKey hne
    by_cases hname : name = other
    · subst hname
      rw [State.entry_of_namespace hfound, State.entry_of_namespace hns]
      apply hothers
      intro heq
      exact hne (by rw [heq])
    · unfold State.entry
      rw [hrest other hname]
  constructor
  · intro other
    rw [← heffect.policies other]
    by_cases hname : name = other
    · subst hname
      rw [hfound, hns, Option.map_some, Option.map_some, hpolicy]
    · rw [hrest other hname]
  · exact ⟨hlimits.1.trans heffect.limits.1, hlimits.2.trans heffect.limits.2⟩
  · exact heffect.nodup
  · exact heffect.present
  · exact heffect.past
  · intro other otherKey hne hpair
    rw [hentry other otherKey hne]
    exact heffect.gone other otherKey hne hpair
  · intro other otherKey hne hpair
    rw [hentry other otherKey hne]
    exact heffect.kept other otherKey hne hpair
  · exact hevictions.trans heffect.evictions
  · exact hexpirations.trans heffect.expirations
  · unfold State.Sound
    rw [hlast]
    exact State.Sound.setNamespace heffect.sound name hnext
  · exact hrepresents

end State.Effect

/-- The counters of losses are machine words. -/
def State.Counted (state : State) : Prop :=
  state.evictions < wordCount ∧ state.expirations < wordCount

theorem State.Effect.counted {before after : State} {name key : String} {nowMillis stamp : ℕ}
    {evicted expired : List (String × String)}
    (heffect : before.Effect after name key nowMillis stamp evicted expired) : after.Counted := by
  constructor
  · rw [heffect.evictions]
    exact saturatingAdd_lt _ _
  · rw [heffect.expirations]
    exact saturatingAdd_lt _ _

/-- A call that changes nothing but the other counters. -/
theorem State.Sound.idle {state after : State} (hsound : state.Sound) (hcounted : state.Counted)
    (hnamespaces : after.namespaces = state.namespaces)
    (htotals : after.totalEntries = state.totalEntries ∧ after.totalBytes = state.totalBytes)
    (hlimits : after.maxTotalEntries = state.maxTotalEntries ∧
      after.maxTotalBytes = state.maxTotalBytes)
    (hevictions : after.evictions = state.evictions)
    (hexpirations : after.expirations = state.expirations) (name key : String)
    (nowMillis stamp : ℕ) : state.Effect after name key nowMillis stamp [] [] := by
  have hloses := (State.Loses.refl hsound).congr hnamespaces htotals.1 htotals.2 hlimits.1 hlimits.2
  refine .ofLoses hloses List.nodup_nil (by simp) (by simp) (by simp) ?_ ?_
  · rw [hevictions]
    exact (saturatingAdd_zero hcounted.1).symm
  · rw [hexpirations]
    exact (saturatingAdd_zero hcounted.2).symm

theorem checkWrite_deadline {policy : NamespacePolicy} {key value : String} {ttlSeconds : ℤ}
    {nowMillis : ℕ} {writer : Writer} {expiresAtMillis : ℕ}
    (hcheck : checkWrite policy key value ttlSeconds nowMillis writer = .ok expiresAtMillis) :
    deadline ttlSeconds nowMillis = some expiresAtMillis := by
  unfold checkWrite at hcheck
  by_cases hmode : policy.mode = .readOnly ∧ writer = .guest
  · simp [hmode, throw, throwThe, MonadExceptOf.throw, bind, Except.bind] at hcheck
  · by_cases hvalue : value.utf8ByteSize > policy.maxValueBytes
    · simp [hmode, hvalue, throw, throwThe, MonadExceptOf.throw, bind, Except.bind] at hcheck
      split at hcheck <;> cases hcheck
    · by_cases httl : ttlSeconds < minTtlSeconds ∨ ttlSeconds > policy.maxTtlSeconds
      · simp [hmode, hvalue, httl, throw, throwThe, MonadExceptOf.throw, bind,
          Except.bind] at hcheck
        split at hcheck <;> cases hcheck
      · rw [if_neg hmode, if_neg hvalue, if_neg httl, Result.bind_eq_ok] at hcheck
        obtain ⟨-, -, hdeadline⟩ := hcheck
        exact Result.ofOption_eq_ok.mp hdeadline

/-- What a write does: on success its entry is stored; on failure its pair holds what
it held, or nothing. -/
theorem State.Sound.write {state : State} (hsound : state.Sound) (hcounted : state.Counted)
    (name key value : String) (ttlSeconds : ℤ) (nowMillis : ℕ) (writer : Writer) (stamp : ℕ) :
    ∃ evicted expired,
      state.Effect (state.write name key value ttlSeconds nowMillis writer stamp).2 name key
        nowMillis stamp evicted expired ∧
      (((state.write name key value ttlSeconds nowMillis writer stamp).1 = .ok () ∧
          ∃ expiresAtMillis, deadline ttlSeconds nowMillis = some expiresAtMillis ∧
            (state.write name key value ttlSeconds nowMillis writer stamp).2.entry name key =
              some { value, expiresAtMillis, stamp }) ∨
        ((state.write name key value ttlSeconds nowMillis writer stamp).1 ≠ .ok () ∧
          ∀ entry, (state.write name key value ttlSeconds nowMillis writer stamp).2.entry name key =
            some entry → state.entry name key = some entry)) := by
  have hidle := hsound.idle hcounted rfl ⟨rfl, rfl⟩ ⟨rfl, rfl⟩ rfl rfl name key nowMillis stamp
  unfold State.write
  cases hns : state.namespaces[name]? with
  | none => exact ⟨[], [], hidle, Or.inr ⟨by simp, fun _ hentry => hentry⟩⟩
  | some ns =>
    simp only []
    cases hcheck : checkWrite ns.policy key value ttlSeconds nowMillis writer with
    | error error => exact ⟨[], [], hidle, Or.inr ⟨by simp, fun _ hentry => hentry⟩⟩
    | ok expiresAtMillis =>
      simp only []
      obtain ⟨expired, replaced, hclears⟩ := hsound.clearFor hns key nowMillis
      have hclearedCount : (state.clearFor name key ns nowMillis).evictions < wordCount := by
        rw [hclears.evictions]
        exact hcounted.1
      obtain ⟨evicted, hevicts, hfits⟩ := State.Sound.makeRoom name (charge key value)
        hclears.loses.sound hclearedCount
      generalize hroom : (state.clearFor name key ns nowMillis).makeRoom name (charge key value) =
        room at hevicts hfits
      obtain ⟨result, made⟩ := room
      have hloses := hclears.loses.trans hevicts.loses
      have hsublist : (expired ++ evicted).Sublist (expired ++ replaced ++ evicted) :=
        (List.sublist_append_left expired replaced).append (List.Sublist.refl evicted)
      have heffect : state.Effect made name key nowMillis stamp evicted expired := by
        refine .ofLoses hloses ?_ ?_ ?_ hclears.past ?_ ?_
        · exact List.perm_append_comm.nodup_iff.mp (hloses.nodup.sublist hsublist)
        · intro pair hpair
          apply hsublist.subset
          rw [List.mem_append] at hpair ⊢
          exact hpair.symm
        · intro pair hpair
          simp only [List.mem_append] at hpair ⊢
          rcases hpair with (hexpired | hreplaced) | hevicted
          · exact Or.inl (Or.inr hexpired)
          · exact Or.inr (hclears.own pair hreplaced)
          · exact Or.inl (Or.inl hevicted)
        · rw [hevicts.evictions, hclears.evictions]
        · rw [hevicts.expirations, hclears.expirations]
      have habsent : made.entry name key = none := hevicts.loses.eq_none hclears.absent
      have hlost : ∀ entry, made.entry name key = some entry →
          state.entry name key = some entry := by
        intro entry hentry
        rw [habsent] at hentry
        cases hentry
      cases result with
      | error error => exact ⟨evicted, expired, heffect, Or.inr ⟨by simp, hlost⟩⟩
      | ok _ =>
        simp only []
        have hroomFits : made.Fits name (charge key value) := hfits rfl
        obtain ⟨found, hfound, -⟩ := id hroomFits
        rw [hfound]
        simp only []
        have hfoundAbsent : found.entries[key]? = none := by
          rw [← State.entry_of_namespace hfound]
          exact habsent
        have hstore : (made.store name key value expiresAtMillis stamp found).namespaces =
            (made.setNamespace name (found.stored key value expiresAtMillis stamp)).namespaces :=
              rfl
        refine ⟨evicted, expired, ?_,
          Or.inl ⟨by simp, expiresAtMillis, checkWrite_deadline hcheck, ?_⟩⟩
        · refine heffect.thenOwn hfound hstore rfl ⟨rfl, rfl⟩ ?_ rfl rfl
            ((heffect.sound name found hfound).stored hfoundAbsent value expiresAtMillis stamp) ?_
          · intro other hne
            exact getElem?_insert_of_ne _ (Ne.symm hne) _
          · intro old hrepresents hlt
            exact (hloses.represents old hrepresents).store hlt hfound hfoundAbsent hroomFits
        · have hstored : (made.store name key value expiresAtMillis stamp found).namespaces[name]? =
              some (found.stored key value expiresAtMillis stamp) :=
            getElem?_setNamespace made name _
          rw [State.entry_of_namespace hstored]
          exact getElem?_insert_self _ _ _

/-- What a read does: a hit refreshes the entry, and an entry that has expired is
taken away and counted. -/
theorem State.Sound.get {state : State} (hsound : state.Sound) (hcounted : state.Counted)
    (name key : String) (nowMillis stamp : ℕ) :
    ∃ expired,
      state.Effect (state.get name key nowMillis stamp).2 name key nowMillis stamp [] expired ∧
      (∀ entry, (state.get name key nowMillis stamp).2.entry name key = some entry →
        ∃ old, state.entry name key = some old ∧ entry.value = old.value ∧
          entry.expiresAtMillis = old.expiresAtMillis) ∧
      ∀ value, (state.get name key nowMillis stamp).1 = .ok (some value) →
        ∃ entry, state.entry name key = some entry ∧ entry.value = value ∧
          nowMillis < entry.expiresAtMillis := by
  have hidle := hsound.idle hcounted rfl ⟨rfl, rfl⟩ ⟨rfl, rfl⟩ rfl rfl name key nowMillis stamp
  have hsame : ∀ entry, state.entry name key = some entry →
      ∃ old, state.entry name key = some old ∧ entry.value = old.value ∧
        entry.expiresAtMillis = old.expiresAtMillis :=
    fun entry hentry => ⟨entry, hentry, rfl, rfl⟩
  unfold State.get
  cases hns : state.namespaces[name]? with
  | none => exact ⟨[], hidle, hsame, by simp⟩
  | some ns =>
    simp only []
    cases hkey : validateKey key ns.policy.maxKeyBytes with
    | error error => exact ⟨[], hidle, hsame, by simp⟩
    | ok _ =>
      simp only []
      cases hentry : ns.entries[key]? with
      | none =>
        refine ⟨[], ?_, hsame, by simp⟩
        apply hsound.idle hcounted
        · rfl
        · exact ⟨rfl, rfl⟩
        · exact ⟨rfl, rfl⟩
        · rfl
        · rfl
      | some entry =>
        simp only []
        have hown : state.entry name key = some entry := by
          rw [State.entry_of_namespace hns]
          exact hentry
        by_cases hexpired : entry.expiresAtMillis ≤ nowMillis
        · rw [if_pos hexpired, Namespace.remove_snd_of_some hentry, Option.getD_some]
          have hshrinks := (hsound name ns hns).remove hentry
          have hloses := hsound.shrink hns hshrinks
          refine ⟨[(name, key)], ?_, ?_, by simp⟩
          · refine .ofLoses (hloses.congr rfl rfl rfl rfl rfl) (by simp) (by simp)
              (by simp) ?_ ?_ rfl
            · intro other otherKey hpair
              rw [List.mem_singleton, Prod.mk.injEq] at hpair
              rw [hpair.1, hpair.2]
              exact ⟨entry, hown, hexpired⟩
            · exact (saturatingAdd_zero hcounted.1).symm
          · intro found hfound
            have hgone : none = some found := (hloses.gone name key (by simp)).symm.trans hfound
            cases hgone
        · rw [if_neg hexpired]
          have hrefreshed :
              (state.setNamespace name (ns.refresh key entry stamp)).namespaces[name]? =
              some (ns.refresh key entry stamp) := getElem?_setNamespace state name _
          refine ⟨[], ?_, ?_, ?_⟩
          · refine hidle.thenOwn hns rfl rfl ⟨rfl, rfl⟩ ?_ rfl rfl
              ((hsound name ns hns).refresh hentry stamp) ?_
            · intro other hne
              exact getElem?_insert_of_ne _ (Ne.symm hne) _
            · intro old hrepresents hlt
              exact State.Represents.refresh hrepresents hlt hns hentry
          · intro found hfound
            have hnew : (state.setNamespace name (ns.refresh key entry stamp)).entry name key =
                some { entry with stamp } := by
              rw [State.entry_of_namespace hrefreshed]
              exact getElem?_insert_self _ _ _
            have heq : some found = some { entry with stamp } := hfound.symm.trans hnew
            rw [Option.some.injEq] at heq
            rw [heq]
            exact ⟨entry, hown, rfl, rfl⟩
          · intro value hvalue
            rw [Except.ok.injEq, Option.some.injEq] at hvalue
            exact ⟨entry, hown, hvalue, by omega⟩

/-- What a delete does: on success its pair holds nothing. -/
theorem State.Sound.delete {state : State} (hsound : state.Sound) (hcounted : state.Counted)
    (name key : String) (nowMillis stamp : ℕ) :
    state.Effect (state.delete name key).2 name key nowMillis stamp [] [] ∧
      (∀ old, state.Represents old → (state.delete name key).2.Represents old) ∧
      (∀ entry, (state.delete name key).2.entry name key = some entry →
        state.entry name key = some entry) ∧
      ((state.delete name key).1 = .ok () → (state.delete name key).2.entry name key = none) := by
  have hidle := hsound.idle hcounted rfl ⟨rfl, rfl⟩ ⟨rfl, rfl⟩ rfl rfl name key nowMillis stamp
  have hsame : ∀ entry, state.entry name key = some entry → state.entry name key = some entry :=
    fun _ hentry => hentry
  unfold State.delete
  cases hns : state.namespaces[name]? with
  | none => exact ⟨hidle, fun _ hold => hold, hsame, by simp⟩
  | some ns =>
    simp only []
    by_cases hmode : ns.policy.mode = .readOnly
    · rw [if_pos hmode]
      exact ⟨hidle, fun _ hold => hold, hsame, by simp⟩
    · rw [if_neg hmode]
      cases hkey : validateKey key ns.policy.maxKeyBytes with
      | error error => exact ⟨hidle, fun _ hold => hold, hsame, by simp⟩
      | ok _ =>
        simp only []
        cases hentry : ns.entries[key]? with
        | none =>
          rw [Namespace.remove_of_none hentry]
          refine ⟨?_, fun _ hold => hold, hsame, ?_⟩
          · apply hsound.idle hcounted
            · rfl
            · exact ⟨rfl, rfl⟩
            · exact ⟨rfl, rfl⟩
            · rfl
            · rfl
          · intro _
            have hnone : state.entry name key = none := by
              rw [State.entry_of_namespace hns]
              exact hentry
            exact hnone
        | some entry =>
          rw [Namespace.remove_snd_of_some hentry]
          have hshrinks := (hsound name ns hns).remove hentry
          have hloses := hsound.shrink hns hshrinks
          refine ⟨?_, ?_, ?_, ?_⟩
          · refine .ofLoses (hloses.congr rfl rfl rfl rfl rfl) (by simp) (by simp) (by simp)
              (by simp)
              ?_ ?_
            · exact (saturatingAdd_zero hcounted.1).symm
            · exact (saturatingAdd_zero hcounted.2).symm
          · intro old hrepresents
            exact hloses.represents old hrepresents
          · intro found hfound
            exact hloses.lost hfound
          · intro _
            exact hloses.gone name key (by simp)

/-- A read depends on the policy of its namespace and on the entry of its pair. -/
theorem State.get_fst_congr {state other : State} {name key : String}
    (hpolicy : other.namespaces[name]?.map Namespace.policy =
      state.namespaces[name]?.map Namespace.policy)
    (hentry : other.entry name key = state.entry name key) (nowMillis stamp otherStamp : ℕ) :
    (other.get name key nowMillis otherStamp).1 = (state.get name key nowMillis stamp).1 := by
  unfold State.get
  cases hns : state.namespaces[name]? with
  | none =>
    rw [hns, Option.map_none, Option.map_eq_none_iff] at hpolicy
    rw [hpolicy]
  | some ns =>
    rw [hns, Option.map_some, Option.map_eq_some_iff] at hpolicy
    obtain ⟨otherNs, hother, hsame⟩ := hpolicy
    rw [State.entry_of_namespace hother, State.entry_of_namespace hns] at hentry
    rw [hother]
    simp only [hsame, hentry]
    cases validateKey key ns.policy.maxKeyBytes with
    | error error => rfl
    | ok _ =>
      simp only []
      cases ns.entries[key]? with
      | none => rfl
      | some entry =>
        simp only []
        by_cases hexpired : entry.expiresAtMillis ≤ nowMillis
        · rw [if_pos hexpired, if_pos hexpired]
        · rw [if_neg hexpired, if_neg hexpired]

/-! ## Whole runs -/

theorem deadline_eq {ttlSeconds : ℤ} {nowMillis expiresAtMillis : ℕ}
    (hdeadline : deadline ttlSeconds nowMillis = some expiresAtMillis) :
    (expiresAtMillis : ℤ) = nowMillis + ttlSeconds * 1000 := by
  unfold deadline at hdeadline
  by_cases hrange : ttlSeconds < 0 ∨ (wordCount : ℤ) ≤ ttlSeconds
  · rw [if_pos hrange] at hdeadline
    cases hdeadline
  · rw [if_neg hrange] at hdeadline
    obtain ⟨millis, hmillis, hadd⟩ := Option.bind_eq_some_iff.mp hdeadline
    have hproduct := checkedMul_eq_some hmillis
    have hsum := checkedAdd_eq_some hadd
    omega

namespace Operation

def name : Operation → String
  | .get name _ _ | .put name _ _ _ _ | .seed name _ _ _ _ | .delete name _ => name

def key : Operation → String
  | .get _ key _ | .put _ key _ _ _ | .seed _ key _ _ _ | .delete _ key => key

/-- The instant of a call; a delete takes none. -/
def nowMillis : Operation → ℕ
  | .get _ _ now | .put _ _ _ _ now | .seed _ _ _ _ now => now
  | .delete _ _ => 0

/-- What a write leaves under its pair. -/
structure Written where
  value : String
  ttlSeconds : ℤ
  nowMillis : ℕ

/-- The calls that write. -/
inductive Writes : Operation → String → String → Written → Prop where
  | put (name key value : String) (ttlSeconds : ℤ) (nowMillis : ℕ) :
      Writes (.put name key value ttlSeconds nowMillis) name key ⟨value, ttlSeconds, nowMillis⟩
  | seed (name key value : String) (ttlSeconds : ℤ) (nowMillis : ℕ) :
      Writes (.seed name key value ttlSeconds nowMillis) name key ⟨value, ttlSeconds, nowMillis⟩

/-- The successful calls after which an earlier write of the pair no longer counts. -/
inductive Supersedes (name key : String) : Operation × Outcome → Prop where
  | write {operation : Operation} {written : Written}
      (hwrites : operation.Writes name key written) :
      Supersedes name key (operation, .done (.ok ()))
  | delete : Supersedes name key (.delete name key, .done (.ok ()))

end Operation

/-- The calls of a run with what they returned. -/
def trace (cache : Cache) : List Operation → List (Operation × Outcome)
  | [] => []
  | operation :: rest =>
      (operation, (cache.step operation).1) :: trace (cache.step operation).2 rest

/-- The last successful write of a pair, with no later successful delete. -/
def LastWrite (calls : List (Operation × Outcome)) (name key : String)
    (written : Operation.Written) : Prop :=
  ∃ before operation after, calls = before ++ (operation, .done (.ok ())) :: after ∧
    operation.Writes name key written ∧
    ∀ call ∈ after, ¬ Operation.Supersedes name key call

theorem LastWrite.snoc {calls : List (Operation × Outcome)} {name key : String}
    {written : Operation.Written} (hlast : LastWrite calls name key written)
    {call : Operation × Outcome} (hcall : ¬ Operation.Supersedes name key call) :
    LastWrite (calls ++ [call]) name key written := by
  obtain ⟨before, operation, after, hcalls, hwrites, hafter⟩ := hlast
  refine ⟨before, operation, after ++ [call], ?_, hwrites, ?_⟩
  · rw [hcalls, List.append_assoc, List.cons_append]
  · intro other hother
    rcases List.mem_append.mp hother with hmem | hmem
    · exact hafter other hmem
    · rw [List.mem_singleton] at hmem
      rw [hmem]
      exact hcall

theorem LastWrite.of_snoc (calls : List (Operation × Outcome)) {name key : String}
    {written : Operation.Written} {operation : Operation}
    (hwrites : operation.Writes name key written) :
    LastWrite (calls ++ [(operation, .done (.ok ()))]) name key written :=
  ⟨calls, operation, [], rfl, hwrites, by simp⟩

/-- Every entry is what the last write of its pair left. -/
def Remembers (calls : List (Operation × Outcome)) (state : State) : Prop :=
  ∀ name key entry, state.entry name key = some entry →
    ∃ written, LastWrite calls name key written ∧ written.value = entry.value ∧
      (entry.expiresAtMillis : ℤ) = written.nowMillis + written.ttlSeconds * 1000

theorem Operation.Supersedes.pair {name key : String} {call : Operation × Outcome}
    (hcall : Operation.Supersedes name key call) : (call.1.name, call.1.key) = (name, key) := by
  cases hcall with
  | write hwrites =>
    cases hwrites with
    | put => rfl
    | seed => rfl
  | delete => rfl

/-- A call is remembered when its own entry is; those of other pairs are lost or
kept. -/
theorem Remembers.effect {calls : List (Operation × Outcome)} {before after : State}
    (hremembers : Remembers calls before) {call : Operation × Outcome} {name key : String}
    (hcall : (call.1.name, call.1.key) = (name, key)) {nowMillis stamp : ℕ}
    {evicted expired : List (String × String)}
    (heffect : before.Effect after name key nowMillis stamp evicted expired)
    (hown : ∀ entry, after.entry name key = some entry →
      ∃ written, LastWrite (calls ++ [call]) name key written ∧ written.value = entry.value ∧
        (entry.expiresAtMillis : ℤ) = written.nowMillis + written.ttlSeconds * 1000) :
    Remembers (calls ++ [call]) after := by
  intro other otherKey entry hentry
  by_cases hpair : (other, otherKey) = (name, key)
  · rw [Prod.mk.injEq] at hpair
    rw [hpair.1, hpair.2] at hentry ⊢
    exact hown entry hentry
  · by_cases hcounted : (other, otherKey) ∈ evicted ++ expired
    · rw [heffect.gone other otherKey hpair hcounted] at hentry
      cases hentry
    · rw [heffect.kept other otherKey hpair hcounted] at hentry
      obtain ⟨written, hlast, hvalue, hdeadline⟩ := hremembers other otherKey entry hentry
      refine ⟨written, hlast.snoc ?_, hvalue, hdeadline⟩
      intro hsupersedes
      exact hpair (hsupersedes.pair.symm.trans hcall)

/-- The own entry is as before, up to its stamp, and the call did not succeed in
changing it. -/
theorem Remembers.keepOwn {calls : List (Operation × Outcome)} {before after : State}
    (hremembers : Remembers calls before) {call : Operation × Outcome} {name key : String}
    (hcall : ¬ Operation.Supersedes name key call)
    (hold : ∀ entry, after.entry name key = some entry →
      ∃ old, before.entry name key = some old ∧ entry.value = old.value ∧
        entry.expiresAtMillis = old.expiresAtMillis) :
    ∀ entry, after.entry name key = some entry →
      ∃ written, LastWrite (calls ++ [call]) name key written ∧ written.value = entry.value ∧
        (entry.expiresAtMillis : ℤ) = written.nowMillis + written.ttlSeconds * 1000 := by
  intro entry hentry
  obtain ⟨old, hbefore, hvalue, hexpires⟩ := hold entry hentry
  obtain ⟨written, hlast, hwritten, hdeadline⟩ := hremembers name key old hbefore
  refine ⟨written, hlast.snoc hcall, ?_, ?_⟩
  · rw [hwritten, hvalue]
  · rw [hexpires]
    exact hdeadline

/-- What holds between calls. -/
structure Between (calls : List (Operation × Outcome)) (cache : Cache) : Prop where
  sound : cache.state.Sound
  counted : cache.state.Counted
  remembers : Remembers calls cache.state

section Step

variable {calls : List (Operation × Outcome)} {cache : Cache}

/-- A write, by a guest or by the host. -/
theorem Between.write (writer : Writer) (hbetween : Between calls cache)
    {name key value : String} {ttlSeconds : ℤ} {nowMillis : ℕ} {operation : Operation}
    (hwrites : operation.Writes name key ⟨value, ttlSeconds, nowMillis⟩) :
    ∃ evicted expired,
      cache.state.Effect (cache.write name key value ttlSeconds nowMillis writer).2.state name key
        nowMillis cache.nextStamp evicted expired ∧
      Remembers (calls ++
          [(operation, .done (cache.write name key value ttlSeconds nowMillis writer).1)])
        (cache.write name key value ttlSeconds nowMillis writer).2.state := by
  have hpair : (operation.name, operation.key) = (name, key) := by
    cases hwrites with
    | put => rfl
    | seed => rfl
  obtain ⟨evicted, expired, heffect, hresult⟩ := hbetween.sound.write hbetween.counted name key
    value ttlSeconds nowMillis writer cache.nextStamp
  refine ⟨evicted, expired, heffect, hbetween.remembers.effect hpair heffect ?_⟩
  rcases hresult with ⟨hok, expiresAtMillis, hdeadline, hstored⟩ | ⟨hfailed, hlost⟩
  · intro entry hentry
    have hsame := hstored.symm.trans hentry
    rw [Option.some.injEq] at hsame
    have hdone : (cache.write name key value ttlSeconds nowMillis writer).1 = .ok () := hok
    rw [hdone, ← hsame]
    exact ⟨_, .of_snoc calls hwrites, rfl, deadline_eq hdeadline⟩
  · apply hbetween.remembers.keepOwn
    · intro hsupersedes
      generalize hdone : (cache.write name key value ttlSeconds nowMillis writer).1 = result
        at hsupersedes
      apply hfailed
      cases hsupersedes with
      | write _ => exact hdone
      | delete => exact hdone
    · intro entry hentry
      exact ⟨entry, hlost entry hentry, rfl, rfl⟩

/-- One call keeps what holds between calls, and its effect is counted. -/
theorem Between.step (hbetween : Between calls cache) (operation : Operation) :
    ∃ evicted expired,
      cache.state.Effect (cache.step operation).2.state operation.name operation.key
        operation.nowMillis cache.nextStamp evicted expired ∧
      Between (calls ++ [(operation, (cache.step operation).1)]) (cache.step operation).2 := by
  cases operation with
  | get name key now =>
    obtain ⟨expired, heffect, hold, -⟩ :=
      hbetween.sound.get hbetween.counted name key now cache.nextStamp
    refine ⟨[], expired, heffect, heffect.sound, heffect.counted, ?_⟩
    refine hbetween.remembers.effect rfl heffect ?_
    apply hbetween.remembers.keepOwn
    · intro hsupersedes
      generalize (cache.step (.get name key now)).1 = outcome at hsupersedes
      cases hsupersedes with
      | write hwrites => cases hwrites
    · exact hold
  | put name key value ttl now =>
    obtain ⟨evicted, expired, heffect, hremembers⟩ :=
      Between.write .guest hbetween (.put name key value ttl now)
    exact ⟨evicted, expired, heffect, heffect.sound, heffect.counted, hremembers⟩
  | seed name key value ttl now =>
    obtain ⟨evicted, expired, heffect, hremembers⟩ :=
      Between.write .host hbetween (.seed name key value ttl now)
    exact ⟨evicted, expired, heffect, heffect.sound, heffect.counted, hremembers⟩
  | delete name key =>
    obtain ⟨heffect, -, hlost, hgone⟩ :=
      hbetween.sound.delete hbetween.counted name key 0 cache.nextStamp
    refine ⟨[], [], heffect, heffect.sound, heffect.counted, ?_⟩
    refine hbetween.remembers.effect rfl heffect ?_
    intro entry hentry
    have hfailed : (cache.state.delete name key).1 ≠ .ok () := by
      intro hok
      have hnone : none = some entry := (hgone hok).symm.trans hentry
      cases hnone
    apply hbetween.remembers.keepOwn _ _ entry hentry
    · intro hsupersedes
      generalize hdone : (cache.step (.delete name key)).1 = outcome at hsupersedes
      cases hsupersedes with
      | write hwrites => cases hwrites
      | delete =>
        apply hfailed
        injection hdone
    · intro found hfound
      exact ⟨found, hlost found hfound, rfl, rfl⟩

theorem Between.run (hbetween : Between calls cache) (operations : List Operation) :
    Between (calls ++ cache.trace operations) (cache.run operations) := by
  induction operations generalizing calls cache with
  | nil =>
    unfold trace
    rw [List.append_nil]
    exact hbetween
  | cons operation rest ih =>
    obtain ⟨-, -, -, hnext⟩ := hbetween.step operation
    have hrest := ih hnext
    rw [List.append_assoc] at hrest
    exact hrest

end Step

/-! ## The start -/

theorem new_eq_ok {config : Config} {cache : Cache} (hnew : Cache.new config = .ok cache) :
    config.validate = .ok () ∧
      cache.state.namespaces = config.namespaces.map (fun _ policy => Namespace.new policy) ∧
      (cache.state.totalEntries = 0 ∧ cache.state.totalBytes = 0) ∧
      (cache.state.maxTotalEntries = config.maxTotalEntries ∧
        cache.state.maxTotalBytes = config.maxTotalBytes) ∧
      (cache.state.evictions = 0 ∧ cache.state.expirations = 0) ∧ cache.stamp = 0 := by
  unfold Cache.new at hnew
  rw [Result.bind_eq_ok] at hnew
  obtain ⟨⟨⟩, hvalid, hcache⟩ := hnew
  rw [Result.pure_eq_ok] at hcache
  rw [← hcache]
  exact ⟨hvalid, rfl, ⟨rfl, rfl⟩, ⟨rfl, rfl⟩, ⟨rfl, rfl⟩, rfl⟩

theorem new_namespace {config : Config} {cache : Cache} (hnew : Cache.new config = .ok cache)
    {name : String} {ns : Namespace} (hns : cache.state.namespaces[name]? = some ns) :
    ∃ policy, config.namespaces[name]? = some policy ∧ ns = Namespace.new policy := by
  rw [(new_eq_ok hnew).2.1, TreeMap.getElem?_map, Option.map_eq_some_iff] at hns
  obtain ⟨policy, hpolicy, heq⟩ := hns
  exact ⟨policy, hpolicy, heq.symm⟩

theorem Namespace.entries_new (policy : NamespacePolicy) (key : String) :
    (Namespace.new policy).entries[key]? = none := by
  unfold Namespace.new
  simp

theorem Namespace.Sound.new (policy : NamespacePolicy) : (Namespace.new policy).Sound := by
  constructor
  · intro stamp key haccess
    unfold Namespace.new at haccess
    simp at haccess
  · intro expiresAt key
    simp only [Namespace.entries_new]
    unfold Namespace.new
    simp

theorem Namespace.Accounted.new (policy : NamespacePolicy) : (Namespace.new policy).Accounted := by
  constructor
  · intro key entry hentry
    rw [Namespace.entries_new] at hentry
    cases hentry
  · rfl

theorem Between.new {config : Config} {cache : Cache} (hnew : Cache.new config = .ok cache) :
    Between [] cache where
  sound := by
    intro name ns hns
    obtain ⟨policy, -, heq⟩ := new_namespace hnew hns
    rw [heq]
    exact Namespace.Sound.new policy
  counted := by
    obtain ⟨-, -, -, -, ⟨hevictions, hexpirations⟩, -⟩ := new_eq_ok hnew
    unfold State.Counted
    rw [hevictions, hexpirations]
    exact ⟨by decide, by decide⟩
  remembers := by
    intro name key entry hentry
    unfold State.entry at hentry
    obtain ⟨ns, hns, hfound⟩ := Option.bind_eq_some_iff.mp hentry
    obtain ⟨policy, -, heq⟩ := new_namespace hnew hns
    rw [heq, Namespace.entries_new] at hfound
    cases hfound

/-- Validation checks each namespace, and the totals if there is one. -/
theorem validate_policy {config : Config} (hvalid : config.validate = .ok ()) {name : String}
    {policy : NamespacePolicy} (hpolicy : config.namespaces[name]? = some policy) :
    config.validatePolicy policy = .ok () ∧
      (0 < config.maxTotalEntries ∧ config.maxTotalEntries ≤ Cache.maxTotalEntries) ∧
      0 < config.maxTotalBytes ∧ config.maxTotalBytes ≤ Cache.maxTotalBytes := by
  unfold Config.validate at hvalid
  by_cases hmany : config.namespaces.size > maxNamespaces
  · rw [if_pos hmany] at hvalid
    cases hvalid
  · rw [if_neg hmany] at hvalid
    by_cases hempty : config.namespaces.size = 0
    · have hpart := weight_le_total (fun _ _ => 1) hpolicy
      rw [total_one_eq_size] at hpart
      omega
    · rw [if_neg hempty] at hvalid
      by_cases htotals : config.maxTotalEntries = 0 ∨
          config.maxTotalEntries > Cache.maxTotalEntries ∨
          config.maxTotalBytes = 0 ∨ config.maxTotalBytes > Cache.maxTotalBytes
      · rw [if_pos htotals] at hvalid
        cases hvalid
      · rw [if_neg htotals, Result.forEach_eq_ok] at hvalid
        have hvalue : policy ∈ config.namespaces.toList.map Prod.snd :=
          List.mem_map.mpr
            ⟨(name, policy), TreeMap.mem_toList_iff_getElem?_eq_some.mpr hpolicy, rfl⟩
        exact ⟨hvalid policy hvalue, by omega, by omega⟩

/-- The bounds that validation gives for each namespace. -/
theorem validate_bounds {config : Config} (hvalid : config.validate = .ok ()) {name : String}
    {policy : NamespacePolicy} (hpolicy : config.namespaces[name]? = some policy) :
    policy.maxBytes < wordCount - 1 ∧ config.maxTotalEntries < wordCount - 1 ∧
      config.maxTotalBytes < wordCount - 1 := by
  obtain ⟨hcheck, htotals⟩ := validate_policy hvalid hpolicy
  unfold Config.validatePolicy at hcheck
  rw [Result.bind_eq_ok] at hcheck
  obtain ⟨-, -, hbudget⟩ := hcheck
  by_cases hover : policy.maxEntries > config.maxTotalEntries ∨
      policy.maxBytes > config.maxTotalBytes
  · rw [if_pos hover] at hbudget
    cases hbudget
  · unfold Cache.maxTotalEntries Cache.maxTotalBytes at htotals
    unfold wordCount
    omega

/-! ## The representation after every run -/

/-- What a run keeps besides the entries: the representation with the stamps so far,
the limits and the policies. -/
structure Keeps (config : Config) (cache : Cache) : Prop where
  represents : cache.state.Represents cache.stamp
  limits : cache.state.maxTotalEntries = config.maxTotalEntries ∧
    cache.state.maxTotalBytes = config.maxTotalBytes
  policies : ∀ name : String, cache.state.namespaces[name]?.map Namespace.policy =
    config.namespaces[name]?

theorem Keeps.new {config : Config} {cache : Cache} (hnew : Cache.new config = .ok cache) :
    Keeps config cache := by
  obtain ⟨hvalid, hnamespaces, ⟨hentries, hbytes⟩, hlimits, -, hstamp⟩ := new_eq_ok hnew
  have hnoEntry : ∀ (name : String) (ns : Namespace) (key : String) (entry : Entry),
      cache.state.namespaces[name]? = some ns → ns.entries[key]? ≠ some entry := by
    intro name ns key entry hns hentry
    obtain ⟨policy, -, heq⟩ := new_namespace hnew hns
    rw [heq, Namespace.entries_new] at hentry
    cases hentry
  refine ⟨?_, hlimits, ?_⟩
  · constructor
    · exact (Between.new hnew).sound
    · intro name ns hns
      obtain ⟨policy, -, heq⟩ := new_namespace hnew hns
      rw [heq]
      exact Namespace.Accounted.new policy
    · intro name ns hns
      obtain ⟨policy, -, heq⟩ := new_namespace hnew hns
      rw [heq]
      exact ⟨Nat.zero_le _, Nat.zero_le _⟩
    · intro name other ns ons key otherKey entry found hns _ hentry
      exact absurd hentry (hnoEntry name ns key entry hns)
    · rw [hentries, hnamespaces, total_map]
      intro _ _
      rfl
    · rw [hbytes, hnamespaces, total_map]
      intro _ _
      rfl
    · rw [hentries]
      exact Nat.zero_le _
    · rw [hbytes]
      exact Nat.zero_le _
    · intro name ns key entry hns hentry
      exact absurd hentry (hnoEntry name ns key entry hns)
    · intro name ns hns
      obtain ⟨policy, hpolicy, heq⟩ := new_namespace hnew hns
      rw [heq, hlimits.1, hlimits.2]
      exact validate_bounds hvalid hpolicy
  · intro name
    rw [hnamespaces, TreeMap.getElem?_map, Option.map_map]
    exact Option.map_id'

theorem Keeps.step {config : Config} {calls : List (Operation × Outcome)} {cache : Cache}
    (hkeeps : Keeps config cache) (hbetween : Between calls cache)
    (hstamp : cache.stamp + 1 < wordCount) (operation : Operation) :
    Keeps config (cache.step operation).2 ∧
      (cache.step operation).2.stamp ≤ cache.stamp + 1 := by
  have hnext : cache.nextStamp = cache.stamp + 1 := Nat.mod_eq_of_lt hstamp
  have hlt : cache.stamp < cache.nextStamp := by omega
  obtain ⟨evicted, expired, heffect, -⟩ := hbetween.step operation
  have hlimits := And.intro (heffect.limits.1.trans hkeeps.limits.1)
    (heffect.limits.2.trans hkeeps.limits.2)
  have hpolicies : ∀ name : String,
      (cache.step operation).2.state.namespaces[name]?.map Namespace.policy =
        config.namespaces[name]? :=
    fun name => (heffect.policies name).trans (hkeeps.policies name)
  have hrepresents := heffect.represents cache.stamp hkeeps.represents hlt
  cases operation with
  | get name key now => exact ⟨⟨hrepresents, hlimits, hpolicies⟩, hnext.le⟩
  | put name key value ttl now => exact ⟨⟨hrepresents, hlimits, hpolicies⟩, hnext.le⟩
  | seed name key value ttl now => exact ⟨⟨hrepresents, hlimits, hpolicies⟩, hnext.le⟩
  | delete name key =>
    -- a delete takes no stamp
    obtain ⟨-, hsame, -, -⟩ := hbetween.sound.delete hbetween.counted name key 0 cache.nextStamp
    exact ⟨⟨hsame cache.stamp hkeeps.represents, hlimits, hpolicies⟩, Nat.le_succ _⟩

theorem Keeps.run {config : Config} {calls : List (Operation × Outcome)} {cache : Cache}
    (hkeeps : Keeps config cache) (hbetween : Between calls cache) (operations : List Operation)
    (hlength : cache.stamp + operations.length < wordCount) :
    Keeps config (cache.run operations) := by
  induction operations generalizing calls cache with
  | nil => exact hkeeps
  | cons operation rest ih =>
    rw [List.length_cons] at hlength
    obtain ⟨hnext, hstamp⟩ := hkeeps.step hbetween (by omega) operation
    obtain ⟨-, -, -, hbetweenNext⟩ := hbetween.step operation
    have hrest : (cache.step operation).2.stamp + rest.length < wordCount := by omega
    exact ih hnext hbetweenNext hrest

/-- The representation of a cache with a given configuration. -/
structure Invariant (config : Config) (state : State) : Prop where
  configured : ∀ name : String, state.namespaces[name]?.map Namespace.policy =
    config.namespaces[name]?
  byAccess : ∀ (name : String) (ns : Namespace), state.namespaces[name]? = some ns →
    ∀ (stamp : ℕ) (key : String), ns.byAccess[stamp]? = some key ↔
      ∃ entry : Entry, ns.entries[key]? = some entry ∧ entry.stamp = stamp
  byExpiry : ∀ (name : String) (ns : Namespace), state.namespaces[name]? = some ns →
    ∀ (expiresAt : ℕ) (key : String), (expiresAt, key) ∈ ns.byExpiry ↔
      ∃ entry : Entry, ns.entries[key]? = some entry ∧ entry.expiresAtMillis = expiresAt
  bytes : ∀ (name : String) (ns : Namespace), state.namespaces[name]? = some ns →
    ns.bytes = total (fun key entry => charge key entry.value) ns.entries
  distinct : ∀ (name other : String) (ns ons : Namespace) (key otherKey : String)
      (entry found : Entry),
    state.namespaces[name]? = some ns → state.namespaces[other]? = some ons →
    ns.entries[key]? = some entry → ons.entries[otherKey]? = some found →
    entry.stamp = found.stamp → name = other ∧ key = otherKey
  totalEntries : state.totalEntries = total (fun _ ns => ns.entries.size) state.namespaces
  totalBytes : state.totalBytes = total (fun _ ns => ns.bytes) state.namespaces
  namespaceBounds : ∀ (name : String) (ns : Namespace), state.namespaces[name]? = some ns →
    ns.entries.size ≤ ns.policy.maxEntries ∧ ns.bytes ≤ ns.policy.maxBytes
  totalBounds : state.totalEntries ≤ config.maxTotalEntries ∧
    state.totalBytes ≤ config.maxTotalBytes

theorem Keeps.invariant {config : Config} {cache : Cache} (hkeeps : Keeps config cache) :
    Invariant config cache.state where
  configured := hkeeps.policies
  byAccess := by
    intro name ns hns stamp key
    constructor
    · exact (hkeeps.represents.sound name ns hns).access stamp key
    · rintro ⟨entry, hentry, hstamp⟩
      rw [← hstamp]
      exact (hkeeps.represents.accounted name ns hns).access key entry hentry
  byExpiry := fun name ns hns => (hkeeps.represents.sound name ns hns).expiry
  bytes := fun name ns hns => (hkeeps.represents.accounted name ns hns).bytes
  distinct := hkeeps.represents.distinct
  totalEntries := hkeeps.represents.entries
  totalBytes := hkeeps.represents.bytes
  namespaceBounds := hkeeps.represents.bounds
  totalBounds := by
    rw [← hkeeps.limits.1, ← hkeeps.limits.2]
    exact ⟨hkeeps.represents.entriesBound, hkeeps.represents.bytesBound⟩

/-- The indexes, the byte counts and the totals describe the entries after every run
of fewer calls than there are stamps. -/
theorem invariant_run {config : Config} {cache : Cache} (hnew : Cache.new config = .ok cache)
    (operations : List Operation) (hlength : operations.length < wordCount) :
    Invariant config (cache.run operations).state := by
  have hstamp := (new_eq_ok hnew).2.2.2.2.2
  exact ((Keeps.new hnew).run (Between.new hnew) operations (by omega)).invariant

def samplePolicy : NamespacePolicy :=
  { mode := .readWrite
    maxEntries := 2
    maxBytes := 4096
    maxKeyBytes := 16
    maxValueBytes := 64
    maxTtlSeconds := 60 }

/-- A cache for one namespace of two entries. -/
def sampleConfig : Config :=
  { namespaces := TreeMap.ofList [("sessions", samplePolicy)]
    maxTotalEntries := 2
    maxTotalBytes := 8192 }

/-- Three writes of which the last evicts, a read and a delete. -/
def sampleOperations : List Operation :=
  [.put "sessions" "ada" "one" 30 0, .put "sessions" "bob" "two" 30 10,
    .get "sessions" "ada" 20, .seed "sessions" "cyd" "three" 30 30, .delete "sessions" "ada"]

theorem exists_new_sample : ∃ cache, Cache.new sampleConfig = .ok cache := by
  have hvalid : sampleConfig.validate = .ok () := Result.eq_ok_of_toBool (by decide +kernel)
  unfold Cache.new
  rw [hvalid]
  exact ⟨_, rfl⟩

theorem invariant_run_sample : ∃ cache, Cache.new sampleConfig = .ok cache ∧
    sampleOperations.length < wordCount ∧
    Invariant sampleConfig (cache.run sampleOperations).state := by
  obtain ⟨cache, hnew⟩ := exists_new_sample
  exact ⟨cache, hnew, by decide, invariant_run hnew sampleOperations (by decide)⟩

/-! ## A map that may only forget -/

theorem Between.get {calls : List (Operation × Outcome)} {cache : Cache}
    (hbetween : Between calls cache) {name key value : String} {nowMillis : ℕ}
    (hget : (cache.get name key nowMillis).1 = .ok (some value)) :
    ∃ written, LastWrite calls name key written ∧ written.value = value ∧
      (nowMillis : ℤ) < written.nowMillis + written.ttlSeconds * 1000 := by
  obtain ⟨-, -, -, hread⟩ :=
    hbetween.sound.get hbetween.counted name key nowMillis cache.nextStamp
  obtain ⟨entry, hentry, hvalue, hbefore⟩ := hread value hget
  obtain ⟨written, hlast, hwritten, hdeadline⟩ := hbetween.remembers name key entry hentry
  refine ⟨written, hlast, hwritten.trans hvalue, ?_⟩
  omega

/-- After every run a read returns only what the last successful write of its pair
wrote, before its deadline; and a call changes what another pair reads only by taking
it away, as an eviction or an expiry that it counts. -/
theorem run_refines_forgetful_map {config : Config} {cache : Cache}
    (hnew : Cache.new config = .ok cache) (operations : List Operation) :
    (∀ name key value nowMillis,
      ((cache.run operations).get name key nowMillis).1 = .ok (some value) →
      ∃ written, LastWrite (cache.trace operations) name key written ∧ written.value = value ∧
        (nowMillis : ℤ) < written.nowMillis + written.ttlSeconds * 1000) ∧
    ∀ operation, ∃ evicted expired : List (String × String),
      (evicted ++ expired).Nodup ∧
      ((cache.run operations).step operation).2.state.evictions =
        saturatingAdd (cache.run operations).state.evictions evicted.length ∧
      ((cache.run operations).step operation).2.state.expirations =
        saturatingAdd (cache.run operations).state.expirations expired.length ∧
      (∀ name key, (name, key) ∈ evicted ++ expired →
        (cache.run operations).state.entry name key ≠ none) ∧
      (∀ name key, (name, key) ∈ expired →
        ∃ entry, (cache.run operations).state.entry name key = some entry ∧
          entry.expiresAtMillis ≤ operation.nowMillis) ∧
      ∀ name key, (name, key) ≠ (operation.name, operation.key) →
        ((name, key) ∈ evicted ++ expired ∧
          ((cache.run operations).step operation).2.state.entry name key = none) ∨
        (((cache.run operations).step operation).2.state.entry name key =
            (cache.run operations).state.entry name key ∧
          ∀ nowMillis, (((cache.run operations).step operation).2.get name key nowMillis).1 =
            ((cache.run operations).get name key nowMillis).1) := by
  have hbetween := (Between.new hnew).run operations
  rw [List.nil_append] at hbetween
  constructor
  · intro name key value nowMillis hget
    exact hbetween.get hget
  · intro operation
    obtain ⟨evicted, expired, heffect, -⟩ := hbetween.step operation
    refine ⟨evicted, expired, heffect.nodup, heffect.evictions, heffect.expirations,
      heffect.present, heffect.past, ?_⟩
    intro name key hne
    by_cases hcounted : (name, key) ∈ evicted ++ expired
    · exact Or.inl ⟨hcounted, heffect.gone name key hne hcounted⟩
    · right
      have hkept := heffect.kept name key hne hcounted
      refine ⟨hkept, ?_⟩
      intro nowMillis
      exact State.get_fst_congr (heffect.policies name) hkept nowMillis _ _

theorem run_refines_forgetful_map_sample : ∃ cache, Cache.new sampleConfig = .ok cache ∧
    ((cache.run (sampleOperations.take 4)).get "sessions" "ada" 40).1 = .ok (some "one") ∧
    ∃ written, LastWrite (cache.trace (sampleOperations.take 4)) "sessions" "ada" written ∧
      written.value = "one" ∧ (40 : ℤ) < written.nowMillis + written.ttlSeconds * 1000 := by
  obtain ⟨cache, hnew⟩ := exists_new_sample
  have hget : ((cache.run (sampleOperations.take 4)).get "sessions" "ada" 40).1 =
      .ok (some "one") := by
    refine Result.eq_ok_of_toOption (fun cache : Cache =>
      ((cache.run (sampleOperations.take 4)).get "sessions" "ada" 40).1) ?_ hnew
    decide +kernel
  refine ⟨cache, hnew, hget, ?_⟩
  exact (run_refines_forgetful_map hnew (sampleOperations.take 4)).1 "sessions" "ada" "one" 40 hget

end Krit.Cache
