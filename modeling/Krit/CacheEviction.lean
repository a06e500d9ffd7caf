import Krit.CacheRuns
import Krit.Lib.Trim
import Mathlib.Data.List.Sort

/-!
# Eviction from the cache

All live entries of a cache have an order, that of their last access.  The loop that makes
room for a write drops entries from the front of this order, first within the namespace of the
write and then over all namespaces, and only as many as it must.  It cannot fail, because a
validated configuration has room for one entry of the largest size.
-/

namespace Krit.Cache

open Std TreeTotal Machine

/-! ## Live entries -/

/-- An entry and where it is. -/
structure Live where
  name : String
  key : String
  entry : Entry
  deriving DecidableEq, Repr

def Live.cost (live : Live) : ℕ := charge live.key live.entry.value

def State.Holds (state : State) (live : Live) : Prop :=
  state.entry live.name live.key = some live.entry

/-- Beside some entries there is room for another of the given charge. -/
def Room (maxEntries maxBytes charge : ℕ) (lives : List Live) : Prop :=
  lives.length < maxEntries ∧ (lives.map Live.cost).sum + charge ≤ maxBytes

def Namespace.lives (name : String) (ns : Namespace) : List Live :=
  ns.entries.toList.map fun held => ⟨name, held.1, held.2⟩

def State.lives (state : State) : List Live :=
  state.namespaces.toList.flatMap fun space => space.2.lives space.1

/-- All live entries, in the order of their stamps. -/
structure State.Ordered (state : State) (all : List Live) : Prop where
  mem : ∀ live, live ∈ all ↔ state.Holds live
  order : all.Pairwise fun first second => first.entry.stamp < second.entry.stamp

section Lives

variable {state : State} {stamp : ℕ} {name : String} {ns : Namespace} {live : Live}
  {all : List Live}

theorem Namespace.mem_lives :
    live ∈ ns.lives name ↔ live.name = name ∧ ns.entries[live.key]? = some live.entry := by
  unfold Namespace.lives
  rw [List.mem_map]
  constructor
  · rintro ⟨⟨key, entry⟩, hmem, heq⟩
    rw [TreeMap.mem_toList_iff_getElem?_eq_some] at hmem
    rw [← heq]
    exact ⟨rfl, hmem⟩
  · rintro ⟨hname, hentry⟩
    refine ⟨(live.key, live.entry), TreeMap.mem_toList_iff_getElem?_eq_some.mpr hentry, ?_⟩
    rw [← hname]

theorem Namespace.nodup_lives (name : String) (ns : Namespace) : (ns.lives name).Nodup := by
  refine (nodup_toList ns.entries).map ?_
  intro first second heq
  rw [Live.mk.injEq] at heq
  exact Prod.ext heq.2.1 heq.2.2

theorem State.holds_iff : state.Holds live ↔
    ∃ ns, state.namespaces[live.name]? = some ns ∧ ns.entries[live.key]? = some live.entry := by
  unfold State.Holds State.entry
  rw [Option.bind_eq_some_iff]

theorem State.mem_lives : live ∈ state.lives ↔ state.Holds live := by
  unfold State.lives
  rw [List.mem_flatMap, State.holds_iff]
  constructor
  · rintro ⟨⟨name, ns⟩, hmem, hlive⟩
    rw [TreeMap.mem_toList_iff_getElem?_eq_some] at hmem
    obtain ⟨hname, hentry⟩ := Namespace.mem_lives.mp hlive
    rw [hname]
    exact ⟨ns, hmem, hentry⟩
  · rintro ⟨ns, hns, hentry⟩
    refine ⟨(live.name, ns), TreeMap.mem_toList_iff_getElem?_eq_some.mpr hns, ?_⟩
    exact Namespace.mem_lives.mpr ⟨rfl, hentry⟩

theorem State.nodup_lives (state : State) : state.lives.Nodup := by
  unfold State.lives
  rw [List.nodup_flatMap]
  refine ⟨fun space _ => Namespace.nodup_lives space.1 space.2, ?_⟩
  refine TreeMap.ordered_keys_toList.imp ?_
  intro first second hlt live hfirst hsecond
  rw [← (Namespace.mem_lives.mp hfirst).1, ← (Namespace.mem_lives.mp hsecond).1,
    ReflOrd.compare_self] at hlt
  cases hlt

/-- Live entries with one stamp are one entry. -/
theorem State.Represents.eq_of_stamp {other : Live} (hstate : state.Represents stamp)
    (hlive : state.Holds live) (hother : state.Holds other)
    (hstamp : live.entry.stamp = other.entry.stamp) : live = other := by
  obtain ⟨ns, hns, hentry⟩ := State.holds_iff.mp hlive
  obtain ⟨ons, hons, hfound⟩ := State.holds_iff.mp hother
  obtain ⟨hname, hkey⟩ := hstate.distinct live.name other.name ns ons live.key other.key
    live.entry other.entry hns hons hentry hfound hstamp
  have hsame : some live.entry = some other.entry := by
    rw [← hlive, ← hother, hname, hkey]
  cases live
  cases other
  simp only [Option.some.injEq] at hname hkey hsame
  rw [hname, hkey, hsame]

theorem State.Represents.exists_ordered (hstate : state.Represents stamp) :
    ∃ all, state.Ordered all := by
  have hperm := List.mergeSort_perm state.lives
    fun first second => decide (first.entry.stamp ≤ second.entry.stamp)
  refine ⟨state.lives.mergeSort fun first second =>
    decide (first.entry.stamp ≤ second.entry.stamp), ?_, ?_⟩
  · intro live
    rw [hperm.mem_iff]
    exact State.mem_lives
  · have hsorted : (state.lives.mergeSort fun first second =>
        decide (first.entry.stamp ≤ second.entry.stamp)).Pairwise fun first second =>
        decide (first.entry.stamp ≤ second.entry.stamp) = true := by
      refine List.pairwise_mergeSort ?_ ?_ state.lives
      · intro first second third
        simp only [decide_eq_true_eq]
        omega
      · intro first second
        simp only [Bool.or_eq_true, decide_eq_true_eq]
        omega
    have hnodup := hperm.nodup_iff.mpr state.nodup_lives
    refine (hsorted.and hnodup).imp_of_mem ?_
    intro first second hfirst hsecond hboth
    obtain ⟨hle, hne⟩ := hboth
    rw [decide_eq_true_eq] at hle
    refine Nat.lt_of_le_of_ne hle ?_
    intro hstamp
    exact hne (hstate.eq_of_stamp (State.mem_lives.mp (hperm.mem_iff.mp hfirst))
      (State.mem_lives.mp (hperm.mem_iff.mp hsecond)) hstamp)

theorem State.Ordered.nodup (hall : state.Ordered all) : all.Nodup :=
  hall.order.imp fun hlt heq => absurd hlt (by rw [heq]; exact lt_irrefl _)

/-! ## Counting live entries -/

theorem State.Ordered.perm_lives (hall : state.Ordered all) : all.Perm state.lives := by
  rw [List.perm_ext_iff_of_nodup hall.nodup state.nodup_lives]
  intro live
  rw [hall.mem, State.mem_lives]

theorem State.Ordered.perm_namespace (hall : state.Ordered all)
    (hns : state.namespaces[name]? = some ns) :
    (all.filter fun live => live.name = name).Perm (ns.lives name) := by
  rw [List.perm_ext_iff_of_nodup (hall.nodup.filter _) (Namespace.nodup_lives name ns)]
  intro live
  rw [List.mem_filter, decide_eq_true_eq, hall.mem, Namespace.mem_lives]
  constructor
  · rintro ⟨hholds, hname⟩
    obtain ⟨found, hfound, hentry⟩ := State.holds_iff.mp hholds
    rw [hname, hns, Option.some.injEq] at hfound
    rw [hfound]
    exact ⟨hname, hentry⟩
  · rintro ⟨hname, hentry⟩
    refine ⟨State.holds_iff.mpr ⟨ns, ?_, hentry⟩, hname⟩
    rw [hname]
    exact hns

theorem Namespace.Accounted.costs (haccounted : ns.Accounted) (name : String) :
    (ns.lives name).length = ns.entries.size ∧ ((ns.lives name).map Live.cost).sum = ns.bytes := by
  constructor
  · unfold Namespace.lives
    rw [List.length_map, TreeMap.length_toList]
  · rw [haccounted.bytes]
    unfold Namespace.lives total
    rw [List.map_map]
    rfl

theorem State.Represents.room_namespace (hstate : state.Represents stamp)
    (hall : state.Ordered all) (hns : state.namespaces[name]? = some ns) (charge : ℕ) :
    Room ns.policy.maxEntries ns.policy.maxBytes charge
        (all.filter fun live => live.name = name) ↔
      ns.entries.size < ns.policy.maxEntries ∧
        saturatingAdd ns.bytes charge ≤ ns.policy.maxBytes := by
  have hperm := hall.perm_namespace hns
  obtain ⟨hlength, hcosts⟩ := (hstate.accounted name ns hns).costs name
  have hlimit := (hstate.policies name ns hns).1
  unfold Room saturatingAdd
  rw [hperm.length_eq, (hperm.map _).sum_eq, hlength, hcosts]
  omega

theorem State.Represents.costs (hstate : state.Represents stamp) (hall : state.Ordered all) :
    all.length = state.totalEntries ∧ (all.map Live.cost).sum = state.totalBytes := by
  have hperm := hall.perm_lives
  have hspaces : ∀ space ∈ state.namespaces.toList,
      (space.2.lives space.1).length = space.2.entries.size ∧
        ((space.2.lives space.1).map Live.cost).sum = space.2.bytes := by
    rintro ⟨name, ns⟩ hmem
    rw [TreeMap.mem_toList_iff_getElem?_eq_some] at hmem
    exact (hstate.accounted name ns hmem).costs name
  constructor
  · rw [hperm.length_eq, hstate.entries]
    unfold State.lives total
    rw [List.length_flatMap]
    congr 1
    exact List.map_congr_left fun space hmem => (hspaces space hmem).1
  · rw [(hperm.map _).sum_eq, hstate.bytes]
    unfold State.lives total
    rw [List.flatMap_def, List.map_flatten, List.sum_flatten, List.map_map, List.map_map]
    congr 1
    exact List.map_congr_left fun space hmem => (hspaces space hmem).2

theorem State.Represents.room_total (hstate : state.Represents stamp)
    (hall : state.Ordered all) (hns : state.namespaces[name]? = some ns) (charge : ℕ) :
    Room state.maxTotalEntries state.maxTotalBytes charge all ↔
      state.totalEntries < state.maxTotalEntries ∧
        saturatingAdd state.totalBytes charge ≤ state.maxTotalBytes := by
  obtain ⟨hlength, hcosts⟩ := hstate.costs hall
  have hlimits := hstate.policies name ns hns
  unfold Room saturatingAdd
  rw [hlength, hcosts]
  omega

/-! ## Evicting the first -/

/-- The head of the index by access has the smallest stamp. -/
theorem head_toList_le {tree : TreeMap ℕ String} {stamp other : ℕ} {key found : String}
    (hhead : tree.toList.head? = some (stamp, key)) (hother : tree[other]? = some found) :
    stamp ≤ other := by
  rw [← TreeMap.mem_toList_iff_getElem?_eq_some] at hother
  cases hlist : tree.toList with
  | nil =>
    rw [hlist] at hhead
    cases hhead
  | cons first rest =>
    have hordered := tree.ordered_keys_toList
    rw [hlist, List.pairwise_cons] at hordered
    rw [hlist, List.head?_cons, Option.some.injEq] at hhead
    rw [hlist, hhead, List.mem_cons] at hother
    rcases hother with hsame | hrest
    · rw [Prod.mk.injEq] at hsame
      exact hsame.1.ge
    · have hlt := hordered.1 _ hrest
      rw [hhead, compare_lt_iff_lt] at hlt
      exact hlt.le

/-- Evicting from a namespace takes the entry with its smallest stamp. -/
theorem State.Represents.evictOne_first (hstate : state.Represents stamp)
    (hall : state.Ordered all) (hns : state.namespaces[name]? = some ns) {rest : List Live}
    (hfirst : (all.filter fun live => live.name = name) = live :: rest) :
    ∃ released, ns.evictOne.2 = some released ∧
      state.Loses ((state.setNamespace name ns.evictOne.1).noteEviction released)
        [(live.name, live.key)] := by
  have hmem : live ∈ all.filter fun live => live.name = name := by
    rw [hfirst]
    exact List.mem_cons_self
  rw [List.mem_filter, decide_eq_true_eq, hall.mem] at hmem
  obtain ⟨hholds, hname⟩ := hmem
  obtain ⟨found, hfound, hentry⟩ := State.holds_iff.mp hholds
  rw [hname, hns, Option.some.injEq] at hfound
  rw [← hfound] at hentry
  have hsound := hstate.sound name ns hns
  have haccess := (hstate.accounted name ns hns).access live.key live.entry hentry
  cases hhead : ns.byAccess.toList.head? with
  | none =>
    rw [List.head?_eq_none_iff] at hhead
    rw [← TreeMap.mem_toList_iff_getElem?_eq_some, hhead] at haccess
    cases haccess
  | some access =>
    obtain ⟨oldest, key⟩ := access
    obtain ⟨entry, hoffered, hoffer⟩ := hsound.access oldest key (head_toList_mem hhead)
    -- the entry at the head and the first of the order both have the smallest stamp
    have hoffers : state.Holds ⟨name, key, entry⟩ := State.holds_iff.mpr ⟨ns, hns, hoffered⟩
    have hle : entry.stamp ≤ live.entry.stamp := by
      rw [hoffer]
      exact head_toList_le hhead haccess
    have hge : live.entry.stamp ≤ entry.stamp := by
      have hinside : (⟨name, key, entry⟩ : Live) ∈ all.filter fun live => live.name = name := by
        rw [List.mem_filter, decide_eq_true_eq, hall.mem]
        exact ⟨hoffers, rfl⟩
      have hpairwise := hall.order.filter fun live => live.name = name
      rw [hfirst] at hinside hpairwise
      rcases List.mem_cons.mp hinside with hsame | hlater
      · rw [← hsame]
      · exact ((List.pairwise_cons.mp hpairwise).1 _ hlater).le
    have hsame : live = ⟨name, key, entry⟩ :=
      hstate.eq_of_stamp hholds hoffers (Nat.le_antisymm hge hle)
    have hevict : ns.evictOne = ns.remove key := by
      unfold Namespace.evictOne
      rw [hhead]
    refine ⟨charge key entry.value, ?_, ?_⟩
    · rw [hevict]
      exact Namespace.remove_snd_of_some hoffered
    · rw [hevict, hsame]
      exact (State.Sound.shrink hstate.sound hns (hsound.remove hoffered)).congr rfl rfl rfl rfl rfl

/-- Evicting globally takes the entry with the smallest stamp of all. -/
theorem State.Represents.evictGlobally_first (hstate : state.Represents stamp) {rest : List Live}
    (hall : state.Ordered (live :: rest)) :
    ∃ released, state.evictGlobally.2 = some released ∧
      state.Loses (state.evictGlobally.1.noteEviction released) [(live.name, live.key)] := by
  have hholds : state.Holds live := (hall.mem live).mp List.mem_cons_self
  obtain ⟨ns, hns, hentry⟩ := State.holds_iff.mp hholds
  have haccess := (hstate.accounted live.name ns hns).access live.key live.entry hentry
  have hleast : ∀ other, state.Holds other → live.entry.stamp ≤ other.entry.stamp := by
    intro other hother
    rcases List.mem_cons.mp ((hall.mem other).mpr hother) with hsame | hlater
    · rw [hsame]
    · exact ((List.pairwise_cons.mp hall.order).1 other hlater).le
  -- the namespace of the first entry offers its stamp, and no namespace offers a smaller one
  cases hhead : ns.byAccess.toList.head? with
  | none =>
    rw [List.head?_eq_none_iff] at hhead
    rw [← TreeMap.mem_toList_iff_getElem?_eq_some, hhead] at haccess
    cases haccess
  | some access =>
    obtain ⟨oldest, key⟩ := access
    have holdest : (oldest, live.name) ∈ state.oldest := by
      unfold State.oldest
      rw [List.mem_filterMap]
      refine ⟨(live.name, ns), TreeMap.mem_toList_iff_getElem?_eq_some.mpr hns, ?_⟩
      simp only [hhead, Option.map_some]
    have hstamp : oldest ≤ live.entry.stamp := head_toList_le hhead haccess
    cases htarget : state.oldest.argmin Prod.fst with
    | none =>
      rw [List.argmin_eq_none] at htarget
      rw [htarget] at holdest
      cases holdest
    | some target =>
      obtain ⟨smallest, name⟩ := target
      have hsmallest : smallest ≤ oldest := List.le_of_mem_argmin holdest htarget
      obtain ⟨⟨other, ons⟩, hons, hoffer⟩ := List.mem_filterMap.mp (List.argmin_mem htarget)
      rw [TreeMap.mem_toList_iff_getElem?_eq_some] at hons
      obtain ⟨⟨found, otherKey⟩, hfound, heq⟩ := Option.map_eq_some_iff.mp hoffer
      rw [Prod.mk.injEq] at heq
      obtain ⟨hfoundEq, hotherEq⟩ := heq
      simp only at hfoundEq hotherEq hons hfound
      rw [hfoundEq] at hfound
      rw [hotherEq] at hons
      obtain ⟨entry, hoffered, hofferStamp⟩ :=
        (hstate.sound name ons hons).access smallest otherKey (head_toList_mem hfound)
      have hoffers : state.Holds ⟨name, otherKey, entry⟩ :=
        State.holds_iff.mpr ⟨ons, hons, hoffered⟩
      have hle := hleast _ hoffers
      simp only at hle
      have hsame : live = ⟨name, otherKey, entry⟩ :=
        hstate.eq_of_stamp hholds hoffers (Nat.le_antisymm hle (by simp only; omega))
      have hevict : ons.evictOne = ons.remove otherKey := by
        unfold Namespace.evictOne
        rw [hfound]
      have hglobal : state.evictGlobally =
          (state.setNamespace name ons.evictOne.1, ons.evictOne.2) := by
        unfold State.evictGlobally
        rw [htarget]
        simp only [hons]
      rw [hglobal, hevict, hsame]
      refine ⟨charge otherKey entry.value, Namespace.remove_snd_of_some hoffered, ?_⟩
      exact (State.Sound.shrink hstate.sound hons
        ((hstate.sound name ons hons).remove hoffered)).congr rfl rfl rfl rfl rfl

/-! ## Making room -/

theorem State.Ordered.loses {after : State} (hall : state.Ordered all)
    (hloses : state.Loses after [(live.name, live.key)]) (hlive : state.Holds live) :
    after.Ordered (all.filter fun other => other ≠ live) where
  mem := by
    intro other
    rw [List.mem_filter, decide_eq_true_eq, hall.mem]
    by_cases hpair : (other.name, other.key) = (live.name, live.key)
    · have hgone := hloses.gone other.name other.key (List.mem_singleton.mpr hpair)
      have hnot : ¬ after.Holds other := by
        unfold State.Holds
        rw [hgone]
        exact Ne.symm (Option.some_ne_none _)
      refine ⟨fun hboth => absurd ?_ hboth.2, fun hafter => absurd hafter hnot⟩
      rw [Prod.mk.injEq] at hpair
      have hentries : some other.entry = some live.entry := by
        rw [← hboth.1, ← hlive, hpair.1, hpair.2]
      cases other
      cases live
      simp only [Option.some.injEq] at hpair hentries
      rw [hpair.1, hpair.2, hentries]
    · have hkept := hloses.kept other.name other.key (by rwa [List.mem_singleton])
      unfold State.Holds
      rw [hkept]
      refine ⟨And.left, fun hholds => ⟨hholds, ?_⟩⟩
      intro hsame
      rw [hsame] at hpair
      exact hpair rfl
  order := hall.order.filter _

theorem filter_ne_first {rest : List Live} (hnodup : (live :: rest).Nodup) :
    ((live :: rest).filter fun other => other ≠ live) = rest := by
  rw [List.filter_cons_of_neg (by simp)]
  refine List.filter_eq_self.mpr ?_
  intro other hother
  rw [decide_eq_true_eq]
  intro hsame
  rw [hsame] at hother
  exact (List.nodup_cons.mp hnodup).1 hother

theorem Room.sublist {maxEntries maxBytes charge : ℕ} {fewer lives : List Live}
    (hroom : Room maxEntries maxBytes charge lives) (hsublist : fewer.Sublist lives) :
    Room maxEntries maxBytes charge fewer := by
  have hsum := (hsublist.map Live.cost).sum_le_sum fun _ _ => Nat.zero_le _
  exact ⟨hsublist.length_le.trans_lt hroom.1, by have := hroom.2; omega⟩

/-- What the loop evicts: from the namespace of the write, and then from the whole cache. -/
structure Evictions (policy : NamespacePolicy) (maxTotalEntries maxTotalBytes : ℕ)
    (name : String) (charge : ℕ) (all own others : List Live) : Prop where
  namespaceBudget : Trim.Shortest (Room policy.maxEntries policy.maxBytes charge)
    (all.filter fun live => live.name = name) own
  wholeBudget : Trim.Shortest (Room maxTotalEntries maxTotalBytes charge)
    (all.filter fun live => live ∉ own) others

/-- An entry of the given charge fits an empty namespace and an empty cache. -/
structure State.Admits (state : State) (name : String) (policy : NamespacePolicy) (charge : ℕ) :
    Prop where
  configured : state.namespaces[name]?.map Namespace.policy = some policy
  own : Room policy.maxEntries policy.maxBytes charge []
  whole : Room state.maxTotalEntries state.maxTotalBytes charge []

theorem State.Admits.loses {after : State} {policy : NamespacePolicy} {charge : ℕ}
    {pairs : List (String × String)} (hadmits : state.Admits name policy charge)
    (hloses : state.Loses after pairs) : after.Admits name policy charge where
  configured := (hloses.policies name).trans hadmits.configured
  own := hadmits.own
  whole := by
    rw [hloses.limits.1, hloses.limits.2]
    exact hadmits.whole

/-- The loop succeeds, and what it evicts of the order are the shortest beginnings that make
room. -/
def State.MakesRoom (state : State) (policy : NamespacePolicy) (name : String) (charge : ℕ)
    (all : List Live) (made : Except Error Unit × State) : Prop :=
  made.1 = .ok () ∧ ∃ own others,
    Evictions policy state.maxTotalEntries state.maxTotalBytes name charge all own others ∧
    ∀ live, made.2.Holds live ↔ state.Holds live ∧ live ∉ own ∧ live ∉ others

section Room

variable {policy : NamespacePolicy} {charge : ℕ} {after : State}
  {made : Except Error Unit × State} {first : Live} {rest : List Live}

theorem State.Admits.policy_eq {ns : Namespace} (hadmits : state.Admits name policy charge)
    (hns : state.namespaces[name]? = some ns) : ns.policy = policy := by
  have hconfigured := hadmits.configured
  rw [hns, Option.map_some, Option.some.injEq] at hconfigured
  exact hconfigured

theorem filter_not_mem_nil (lives : List Live) :
    (lives.filter fun live => live ∉ ([] : List Live)) = lives :=
  List.filter_eq_self.mpr fun _ _ => by simp

/-- Nothing is evicted where there is room. -/
theorem makesRoom_nothing
    (hown : Room policy.maxEntries policy.maxBytes charge
      (all.filter fun live => live.name = name))
    (hwhole : Room state.maxTotalEntries state.maxTotalBytes charge all) :
    state.MakesRoom policy name charge all (.ok (), state) := by
  refine ⟨rfl, [], [], ⟨Trim.shortest_nil hown, ?_⟩, ?_⟩
  · rw [filter_not_mem_nil]
    exact Trim.shortest_nil hwhole
  · intro live
    simp

/-- The first of the order goes while its namespace has room and the whole cache has none. -/
theorem State.MakesRoom.globally (hall : state.Ordered (first :: rest))
    (hloses : state.Loses after [(first.name, first.key)])
    (hown : Room policy.maxEntries policy.maxBytes charge
      ((first :: rest).filter fun live => live.name = name))
    (hrefused : ¬ Room state.maxTotalEntries state.maxTotalBytes charge (first :: rest))
    (hmakes : after.MakesRoom policy name charge rest made) :
    state.MakesRoom policy name charge (first :: rest) made := by
  have hordered := hall.loses hloses ((hall.mem first).mp List.mem_cons_self)
  rw [filter_ne_first hall.nodup] at hordered
  obtain ⟨hok, own, others, hevictions, hholds⟩ := hmakes
  -- the namespace keeps its room, so nothing more is evicted from it
  have hempty : own = [] :=
    hevictions.namespaceBudget.eq_nil (hown.sublist ((List.sublist_cons_self first rest).filter _))
  rw [hempty] at hevictions hholds
  refine ⟨hok, [], first :: others, ⟨Trim.shortest_nil hown, ?_⟩, ?_⟩
  · have hothers := hevictions.wholeBudget
    rw [filter_not_mem_nil, hloses.limits.1, hloses.limits.2] at hothers
    rw [filter_not_mem_nil]
    exact hothers.cons hrefused
  · intro live
    rw [hholds live, ← hordered.mem, ← hall.mem]
    have hnot := (List.nodup_cons.mp hall.nodup).1
    constructor
    · rintro ⟨hrest, -, hothers⟩
      refine ⟨List.mem_cons_of_mem _ hrest, List.not_mem_nil, ?_⟩
      rw [List.mem_cons, not_or]
      refine ⟨?_, hothers⟩
      intro hsame
      rw [hsame] at hrest
      exact hnot hrest
    · rintro ⟨hmem, -, hothers⟩
      rw [List.mem_cons, not_or] at hothers
      exact ⟨(List.mem_cons.mp hmem).resolve_left hothers.1, List.not_mem_nil, hothers.2⟩

/-- The first of the namespace goes while that has no room. -/
theorem State.MakesRoom.locally (hall : state.Ordered all)
    (hfirst : (all.filter fun live => live.name = name) = first :: rest)
    (hloses : state.Loses after [(first.name, first.key)])
    (hrefused : ¬ Room policy.maxEntries policy.maxBytes charge (first :: rest))
    (hmakes : after.MakesRoom policy name charge (all.filter fun other => other ≠ first) made) :
    state.MakesRoom policy name charge all made := by
  have hmem : first ∈ all.filter fun live => live.name = name := by
    rw [hfirst]
    exact List.mem_cons_self
  have hordered := hall.loses hloses ((hall.mem first).mp (List.mem_filter.mp hmem).1)
  obtain ⟨hok, own, others, hevictions, hholds⟩ := hmakes
  have hnodup : (first :: rest).Nodup := by
    rw [← hfirst]
    exact hall.nodup.filter _
  have hrest : ((all.filter fun other => other ≠ first).filter fun live => live.name = name) =
      rest := by
    rw [List.filter_comm, hfirst]
    exact filter_ne_first hnodup
  refine ⟨hok, first :: own, others, ⟨?_, ?_⟩, ?_⟩
  · have howns := hevictions.namespaceBudget
    rw [hrest] at howns
    rw [hfirst]
    exact howns.cons hrefused
  · have hothers := hevictions.wholeBudget
    rw [hloses.limits.1, hloses.limits.2, List.filter_filter] at hothers
    have hsame : (all.filter fun live => live ∉ first :: own) =
        all.filter fun live => decide (live ∉ own) && decide (live ≠ first) := by
      refine List.filter_congr ?_
      intro live _
      rw [Bool.eq_iff_iff, Bool.and_eq_true, decide_eq_true_eq, decide_eq_true_eq,
        decide_eq_true_eq, List.mem_cons, not_or]
      exact and_comm
    rw [hsame]
    exact hothers
  · intro live
    rw [hholds live, ← hordered.mem, ← hall.mem, List.mem_filter, decide_eq_true_eq,
      List.mem_cons, not_or]
    tauto

end Room

/-- The loop makes room for whatever fits an empty cache. -/
theorem State.Represents.makeRoom {policy : NamespacePolicy} {charge : ℕ}
    (hstate : state.Represents stamp) (hadmits : state.Admits name policy charge)
    (hall : state.Ordered all) :
    state.MakesRoom policy name charge all (state.makeRoom name charge) := by
  fun_induction State.makeRoom name charge state generalizing all with
  | case1 state hnone =>
    have hconfigured := hadmits.configured
    rw [hnone] at hconfigured
    cases hconfigured
  | case2 state ns hns hfits hglobal =>
    have hown := (hstate.room_namespace hall hns charge).mpr hfits
    rw [hadmits.policy_eq hns] at hown
    exact makesRoom_nothing hown ((hstate.room_total hall hns charge).mpr hglobal)
  | case3 state ns hns hfits hglobal hnone =>
    cases all with
    | nil => exact absurd ((hstate.room_total hall hns charge).mp hadmits.whole) hglobal
    | cons first rest =>
      obtain ⟨released, hreleased, -⟩ := hstate.evictGlobally_first hall
      rw [hnone] at hreleased
      cases hreleased
  | case4 state ns hns hfits hglobal released hreleased ih =>
    cases all with
    | nil => exact absurd ((hstate.room_total hall hns charge).mp hadmits.whole) hglobal
    | cons first rest =>
      obtain ⟨found, hfound, hloses⟩ := hstate.evictGlobally_first hall
      rw [hreleased, Option.some.injEq] at hfound
      rw [← hfound] at hloses
      have hordered := hall.loses hloses ((hall.mem first).mp List.mem_cons_self)
      rw [filter_ne_first hall.nodup] at hordered
      have hown := (hstate.room_namespace hall hns charge).mpr hfits
      rw [hadmits.policy_eq hns] at hown
      exact State.MakesRoom.globally hall hloses hown
        (fun hwhole => hglobal ((hstate.room_total hall hns charge).mp hwhole))
        (ih (hloses.represents stamp hstate) (hadmits.loses hloses) hordered)
  | case5 state ns hns hfull hnone =>
    have hroom := hstate.room_namespace hall hns charge
    rw [hadmits.policy_eq hns] at hroom hfull
    cases hown : all.filter fun live => live.name = name with
    | nil =>
      rw [hown] at hroom
      exact absurd (hroom.mp hadmits.own) hfull
    | cons first rest =>
      obtain ⟨released, hreleased, -⟩ := hstate.evictOne_first hall hns hown
      rw [hnone] at hreleased
      cases hreleased
  | case6 state ns hns hfull released hreleased ih =>
    have hroom := hstate.room_namespace hall hns charge
    rw [hadmits.policy_eq hns] at hroom hfull
    cases hown : all.filter fun live => live.name = name with
    | nil =>
      rw [hown] at hroom
      exact absurd (hroom.mp hadmits.own) hfull
    | cons first rest =>
      obtain ⟨found, hfound, hloses⟩ := hstate.evictOne_first hall hns hown
      rw [hreleased, Option.some.injEq] at hfound
      rw [← hfound] at hloses
      have hmem : first ∈ all.filter fun live => live.name = name := by
        rw [hown]
        exact List.mem_cons_self
      have hordered := hall.loses hloses ((hall.mem first).mp (List.mem_filter.mp hmem).1)
      rw [hown] at hroom
      exact State.MakesRoom.locally hall hown hloses (fun hfits => hfull (hroom.mp hfits))
        (ih (hloses.represents stamp hstate) (hadmits.loses hloses) hordered)

end Lives

/-! ## Writes -/

/-- The errors of the checks that a write makes before it touches any entry. -/
def writeRefusals : List Error :=
  [notConfigured, configuredReadOnly, .ofLimit "cache key must not be empty",
    .ofLimit "cache key exceeds its configured byte bound",
    .ofLimit "cache key must not contain control characters",
    .ofLimit "cache value exceeds its configured byte bound",
    .ofLimit "cache time to live is outside its configured bounds",
    .ofLimit "cache deadline overflowed"]

/-- The error of the first check that a write does not pass. -/
def State.refusal (state : State) (name key value : String) (ttlSeconds : ℤ) (nowMillis : ℕ)
    (writer : Writer) : Option Error :=
  match state.namespaces[name]? with
  | none => some notConfigured
  | some ns =>
      match checkWrite ns.policy key value ttlSeconds nowMillis writer with
      | .error error => some error
      | .ok _ => none

/-- A write that is not refused passes every check of a configured namespace. -/
theorem State.refusal_eq_none {state : State} {name key value : String} {ttlSeconds : ℤ}
    {nowMillis : ℕ} {writer : Writer}
    (hrefusal : state.refusal name key value ttlSeconds nowMillis writer = none) :
    ∃ ns expiresAtMillis, state.namespaces[name]? = some ns ∧
      checkWrite ns.policy key value ttlSeconds nowMillis writer = .ok expiresAtMillis := by
  unfold State.refusal at hrefusal
  cases hns : state.namespaces[name]? with
  | none =>
    rw [hns] at hrefusal
    cases hrefusal
  | some ns =>
    simp only [hns] at hrefusal
    cases hcheck : checkWrite ns.policy key value ttlSeconds nowMillis writer with
    | error error =>
      rw [hcheck] at hrefusal
      cases hrefusal
    | ok expiresAtMillis => exact ⟨ns, expiresAtMillis, rfl, hcheck⟩

section Writes

variable {policy : NamespacePolicy} {key value : String} {ttlSeconds : ℤ} {nowMillis : ℕ}
  {writer : Writer} {expiresAtMillis : ℕ}

theorem validateKey_refusal {maxKeyBytes : ℕ} {error : Error}
    (hcheck : validateKey key maxKeyBytes = .error error) : error ∈ writeRefusals := by
  unfold validateKey at hcheck
  split at hcheck
  · cases hcheck
    simp [writeRefusals]
  · split at hcheck
    · cases hcheck
      simp [writeRefusals]
    · split at hcheck
      · cases hcheck
        simp [writeRefusals]
      · cases hcheck

theorem checkWrite_refusal {error : Error}
    (hcheck : checkWrite policy key value ttlSeconds nowMillis writer = .error error) :
    error ∈ writeRefusals := by
  unfold checkWrite at hcheck
  by_cases hmode : policy.mode = .readOnly ∧ writer = .guest
  · rw [if_pos hmode] at hcheck
    cases hcheck
    simp [writeRefusals]
  · rw [if_neg hmode] at hcheck
    cases hkey : validateKey key policy.maxKeyBytes with
    | error found =>
      rw [hkey] at hcheck
      cases hcheck
      exact validateKey_refusal hkey
    | ok _ =>
      rw [hkey] at hcheck
      by_cases hvalue : value.utf8ByteSize > policy.maxValueBytes
      · rw [if_pos hvalue] at hcheck
        cases hcheck
        simp [writeRefusals]
      · rw [if_neg hvalue] at hcheck
        by_cases httl : ttlSeconds < minTtlSeconds ∨ ttlSeconds > policy.maxTtlSeconds
        · rw [if_pos httl] at hcheck
          cases hcheck
          simp [writeRefusals]
        · rw [if_neg httl] at hcheck
          cases hdeadline : deadline ttlSeconds nowMillis with
          | none =>
            rw [hdeadline] at hcheck
            cases hcheck
            simp [writeRefusals]
          | some found =>
            rw [hdeadline] at hcheck
            cases hcheck

/-- A write that is checked has a key and a value within the bounds of its namespace. -/
theorem checkWrite_bounds
    (hcheck : checkWrite policy key value ttlSeconds nowMillis writer = .ok expiresAtMillis) :
    validateKey key policy.maxKeyBytes = .ok () ∧ value.utf8ByteSize ≤ policy.maxValueBytes := by
  unfold checkWrite at hcheck
  by_cases hmode : policy.mode = .readOnly ∧ writer = .guest
  · rw [if_pos hmode] at hcheck
    cases hcheck
  · rw [if_neg hmode] at hcheck
    cases hkey : validateKey key policy.maxKeyBytes with
    | error found =>
      rw [hkey] at hcheck
      cases hcheck
    | ok _ =>
      rw [hkey] at hcheck
      by_cases hvalue : value.utf8ByteSize > policy.maxValueBytes
      · rw [if_pos hvalue] at hcheck
        cases hcheck
      · exact ⟨rfl, Nat.not_lt.mp hvalue⟩

theorem validateKey_bound {maxKeyBytes : ℕ} (hcheck : validateKey key maxKeyBytes = .ok ()) :
    key.utf8ByteSize ≤ maxKeyBytes := by
  unfold validateKey at hcheck
  split at hcheck
  · cases hcheck
  · split at hcheck
    · cases hcheck
    · rename_i hbytes
      exact Nat.not_lt.mp hbytes

theorem charge_le (key value : String) :
    charge key value ≤ key.utf8ByteSize + value.utf8ByteSize + entryOverheadBytes := by
  unfold charge
  exact (min_le_left _ _).trans (Nat.add_le_add_right (min_le_left _ _) _)

/-- A validated configuration has room for any entry that passes the checks. -/
theorem validate_room {config : Config} (hvalid : config.validate = .ok ()) {name : String}
    (hpolicy : config.namespaces[name]? = some policy)
    (hkey : key.utf8ByteSize ≤ policy.maxKeyBytes)
    (hvalue : value.utf8ByteSize ≤ policy.maxValueBytes) :
    Room policy.maxEntries policy.maxBytes (charge key value) [] ∧
      Room config.maxTotalEntries config.maxTotalBytes (charge key value) [] := by
  obtain ⟨hchecked, htotals⟩ := validate_policy hvalid hpolicy
  unfold Config.validatePolicy at hchecked
  rw [Result.bind_eq_ok] at hchecked
  obtain ⟨_, hlimits, hbudget⟩ := hchecked
  have hwithin : ¬ (policy.maxEntries > config.maxTotalEntries ∨
      policy.maxBytes > config.maxTotalBytes) := by
    intro hover
    rw [if_pos hover] at hbudget
    cases hbudget
  unfold NamespacePolicy.validate at hlimits
  split at hlimits
  · cases hlimits
  · rename_i hbounds
    split at hlimits
    · cases hlimits
    · rename_i largest hlargest
      obtain ⟨pair, hpair, hsum⟩ := Option.bind_eq_some_iff.mp hlargest
      have hpairEq := checkedAdd_eq_some hpair
      have hsumEq := checkedAdd_eq_some hsum
      split at hlimits
      · cases hlimits
      · rename_i hfits
        have hcharge := charge_le key value
        unfold Room
        simp only [List.length_nil, List.map_nil, List.sum_nil, Nat.zero_add]
        omega

end Writes

section Accepted

variable {state : State} {stamp : ℕ} {name key value : String} {ns : Namespace} {ttlSeconds : ℤ}
  {nowMillis : ℕ} {writer : Writer} {expiresAtMillis : ℕ}

/-- A write that passes its checks evicts the shortest beginnings of the order and stores its
entry. -/
theorem State.Represents.write_accepted (hstate : state.Represents stamp)
    (hcount : state.evictions < wordCount) (hns : state.namespaces[name]? = some ns)
    (hcheck : checkWrite ns.policy key value ttlSeconds nowMillis writer = .ok expiresAtMillis)
    (hadmits : state.Admits name ns.policy (charge key value)) (fresh : ℕ) :
    (state.write name key value ttlSeconds nowMillis writer fresh).1 = .ok () ∧
    (state.write name key value ttlSeconds nowMillis writer fresh).2.entry name key =
      some { value, expiresAtMillis, stamp := fresh } ∧
    (state.write name key value ttlSeconds nowMillis writer fresh).2.namespaces[name]?.map
      Namespace.policy = some ns.policy ∧
    ∃ all own others, (state.clearFor name key ns nowMillis).Ordered all ∧
      Evictions ns.policy state.maxTotalEntries state.maxTotalBytes name (charge key value) all
        own others ∧
      ∀ live : Live, (live.name, live.key) ≠ (name, key) →
        ((state.write name key value ttlSeconds nowMillis writer fresh).2.Holds live ↔
          (state.clearFor name key ns nowMillis).Holds live ∧ live ∉ own ∧ live ∉ others) := by
  obtain ⟨expired, replaced, hclears⟩ := State.Sound.clearFor hstate.sound hns key nowMillis
  have hcleared := hclears.loses.represents stamp hstate
  have hclearedAdmits := hadmits.loses hclears.loses
  obtain ⟨all, hall⟩ := hcleared.exists_ordered
  obtain ⟨hok, own, others, hevictions, hholds⟩ := hcleared.makeRoom hclearedAdmits hall
  rw [hclears.loses.limits.1, hclears.loses.limits.2] at hevictions
  have hclearedCount : (state.clearFor name key ns nowMillis).evictions < wordCount := by
    rw [hclears.evictions]
    exact hcount
  obtain ⟨evicted, hevicts, -⟩ := State.Sound.makeRoom name (charge key value)
    hclears.loses.sound hclearedCount
  have hmadeAdmits := hclearedAdmits.loses hevicts.loses
  unfold State.write
  rw [hns]
  simp only [hcheck]
  generalize (state.clearFor name key ns nowMillis).makeRoom name (charge key value) = room
    at hok hholds hmadeAdmits
  obtain ⟨result, made⟩ := room
  simp only at hok hholds hmadeAdmits
  obtain ⟨found, hfound, hpolicy⟩ := Option.map_eq_some_iff.mp hmadeAdmits.configured
  rw [hok]
  simp only [hfound]
  have hstored : (made.store name key value expiresAtMillis fresh found).namespaces[name]? =
      some (found.stored key value expiresAtMillis fresh) := getElem?_setNamespace made name _
  refine ⟨trivial, ?_, ?_, all, own, others, hall, hevictions, ?_⟩
  · rw [State.entry_of_namespace hstored]
    exact getElem?_insert_self _ _ _
  · rw [hstored, Option.map_some]
    exact congrArg some hpolicy
  · intro live hpair
    rw [← hholds live]
    unfold State.Holds
    by_cases hname : live.name = name
    · have hkey : key ≠ live.key := by
        intro hkey
        rw [hname, ← hkey] at hpair
        exact hpair rfl
      rw [hname, State.entry_of_namespace hstored, State.entry_of_namespace hfound]
      have hother : (found.stored key value expiresAtMillis fresh).entries[live.key]? =
          found.entries[live.key]? := getElem?_insert_of_ne _ hkey _
      rw [hother]
    · have hspace : (made.store name key value expiresAtMillis fresh found).namespaces[live.name]? =
          made.namespaces[live.name]? := getElem?_setNamespace_of_ne made (Ne.symm hname) _
      unfold State.entry
      rw [hspace]

/-- A live entry that has not expired is read. -/
theorem State.get_of_entry {policy : NamespacePolicy} {entry : Entry}
    (hpolicy : state.namespaces[name]?.map Namespace.policy = some policy)
    (hkey : validateKey key policy.maxKeyBytes = .ok ())
    (hentry : state.entry name key = some entry)
    (hbefore : nowMillis < entry.expiresAtMillis) (fresh : ℕ) :
    (state.get name key nowMillis fresh).1 = .ok (some entry.value) := by
  obtain ⟨found, hfound, hfoundPolicy⟩ := Option.map_eq_some_iff.mp hpolicy
  rw [State.entry_of_namespace hfound] at hentry
  unfold State.get
  rw [hfound]
  simp only [hfoundPolicy, hkey, hentry]
  rw [if_neg (by omega)]

end Accepted

/-- A write whose checks fail changes nothing, and any other write succeeds, after which its
pair reads the value until the deadline. -/
structure WritesSafely (cache : Cache) (name key value : String) (ttlSeconds : ℤ)
    (nowMillis : ℕ) (writer : Writer) : Prop where
  refused : ∀ error,
    cache.state.refusal name key value ttlSeconds nowMillis writer = some error →
    error ∈ writeRefusals ∧
    (cache.write name key value ttlSeconds nowMillis writer).1 = .error error ∧
    (cache.write name key value ttlSeconds nowMillis writer).2.state = cache.state
  accepted : cache.state.refusal name key value ttlSeconds nowMillis writer = none →
    (cache.write name key value ttlSeconds nowMillis writer).1 = .ok () ∧
    ∃ expiresAtMillis, deadline ttlSeconds nowMillis = some expiresAtMillis ∧
      ∀ instant, instant < expiresAtMillis →
        ((cache.write name key value ttlSeconds nowMillis writer).2.get name key instant).1 =
          .ok (some value)

theorem Keeps.admits {config : Config} {cache : Cache} (hkeeps : Keeps config cache)
    (hvalid : config.validate = .ok ()) {name key value : String} {ns : Namespace}
    (hns : cache.state.namespaces[name]? = some ns) {ttlSeconds : ℤ} {nowMillis : ℕ}
    {writer : Writer} {expiresAtMillis : ℕ}
    (hcheck : checkWrite ns.policy key value ttlSeconds nowMillis writer = .ok expiresAtMillis) :
    cache.state.Admits name ns.policy (charge key value) := by
  obtain ⟨hkey, hvalue⟩ := checkWrite_bounds hcheck
  have hpolicy := hkeeps.policies name
  rw [hns, Option.map_some] at hpolicy
  obtain ⟨hown, hwhole⟩ := validate_room hvalid hpolicy.symm (validateKey_bound hkey) hvalue
  refine ⟨by rw [hns, Option.map_some], hown, ?_⟩
  rw [hkeeps.limits.1, hkeeps.limits.2]
  exact hwhole

theorem Keeps.writesSafely {config : Config} {cache : Cache} (hkeeps : Keeps config cache)
    (hvalid : config.validate = .ok ()) (hcount : cache.state.evictions < wordCount)
    (name key value : String) (ttlSeconds : ℤ) (nowMillis : ℕ) (writer : Writer) :
    WritesSafely cache name key value ttlSeconds nowMillis writer := by
  constructor
  · intro error hrefusal
    unfold State.refusal at hrefusal
    unfold Cache.write State.write
    cases hns : cache.state.namespaces[name]? with
    | none =>
      rw [hns, Option.some.injEq] at hrefusal
      rw [← hrefusal]
      exact ⟨by simp [writeRefusals], rfl, rfl⟩
    | some ns =>
      simp only [hns] at hrefusal ⊢
      cases hcheck : checkWrite ns.policy key value ttlSeconds nowMillis writer with
      | error found =>
        rw [hcheck, Option.some.injEq] at hrefusal
        rw [← hrefusal]
        exact ⟨checkWrite_refusal hcheck, rfl, rfl⟩
      | ok expiresAtMillis =>
        rw [hcheck] at hrefusal
        cases hrefusal
  · intro hrefusal
    obtain ⟨ns, expiresAtMillis, hns, hcheck⟩ := State.refusal_eq_none hrefusal
    obtain ⟨hok, hentry, hpolicy, -⟩ := hkeeps.represents.write_accepted hcount hns hcheck
      (hkeeps.admits hvalid hns hcheck) cache.nextStamp
    refine ⟨hok, expiresAtMillis, checkWrite_deadline hcheck, ?_⟩
    intro instant hinstant
    exact State.get_of_entry hpolicy (checkWrite_bounds hcheck).1 hentry hinstant _

theorem run_counted {config : Config} {cache : Cache} (hnew : Cache.new config = .ok cache)
    (operations : List Operation) : (cache.run operations).state.evictions < wordCount :=
  ((Between.new hnew).run operations).counted.1

theorem Keeps.run_new {config : Config} {cache : Cache} (hnew : Cache.new config = .ok cache)
    (operations : List Operation) (hlength : operations.length < wordCount) :
    Keeps config (cache.run operations) := by
  have hstamp := (new_eq_ok hnew).2.2.2.2.2
  exact (Keeps.new hnew).run (Between.new hnew) operations (by omega)

/-- As long as the stamps have not wrapped, a write fails only before it touches an entry. -/
theorem writes_fail_only_unchanged {config : Config} {cache : Cache}
    (hnew : Cache.new config = .ok cache) (operations : List Operation)
    (hlength : operations.length < wordCount) (name key value : String) (ttlSeconds : ℤ)
    (nowMillis : ℕ) (writer : Writer) :
    WritesSafely (cache.run operations) name key value ttlSeconds nowMillis writer :=
  (Keeps.run_new hnew operations hlength).writesSafely (new_eq_ok hnew).1
    (run_counted hnew operations) name key value ttlSeconds nowMillis writer

theorem writes_fail_only_unchanged_sample : ∃ cache, Cache.new sampleConfig = .ok cache ∧
    sampleOperations.length < wordCount ∧
    WritesSafely (cache.run sampleOperations) "sessions" "dan" "four" 30 40 .guest := by
  obtain ⟨cache, hnew⟩ := exists_new_sample
  exact ⟨cache, hnew, by decide, writes_fail_only_unchanged hnew sampleOperations (by decide)
    "sessions" "dan" "four" 30 40 .guest⟩

/-! ## After the stamps have wrapped -/

section Wrapping

variable {cache : Cache} {name key : String} {nowMillis : ℕ}

/-- A read of an absent key takes a stamp and counts a miss. -/
theorem get_absent {ns : Namespace} (hns : cache.state.namespaces[name]? = some ns)
    (hkey : validateKey key ns.policy.maxKeyBytes = .ok ()) (habsent : ns.entries[key]? = none) :
    (cache.step (.get name key nowMillis)).2 =
      { state := { cache.state with misses := saturatingAdd cache.state.misses 1 }
        stamp := cache.nextStamp } := by
  unfold Cache.step Cache.get State.get
  simp only [hns, hkey, habsent]

theorem run_absent {ns : Namespace} (hns : cache.state.namespaces[name]? = some ns)
    (hkey : validateKey key ns.policy.maxKeyBytes = .ok ()) (habsent : ns.entries[key]? = none)
    (hstamp : cache.stamp < wordCount) (hmisses : cache.state.misses < wordCount) (count : ℕ) :
    cache.run (List.replicate count (.get name key nowMillis)) =
      { state := { cache.state with misses := saturatingAdd cache.state.misses count }
        stamp := (cache.stamp + count) % wordCount } := by
  induction count generalizing cache with
  | zero =>
    rw [saturatingAdd_zero hmisses, Nat.add_zero, Nat.mod_eq_of_lt hstamp]
    rfl
  | succ count ih =>
    have hfirst : cache.run (List.replicate (count + 1) (.get name key nowMillis)) =
        (cache.step (.get name key nowMillis)).2.run
          (List.replicate count (.get name key nowMillis)) := rfl
    have hwrap : cache.nextStamp < wordCount := Nat.mod_lt _ (by decide)
    rw [hfirst, get_absent hns hkey habsent, ih (by exact hns) hwrap (saturatingAdd_lt _ _)]
    simp only [saturatingAdd_saturatingAdd, Cache.nextStamp, Nat.mod_add_mod]
    rw [Nat.add_comm 1 count, Nat.add_assoc, Nat.add_comm 1 count]

theorem run_append (cache : Cache) (first second : List Operation) :
    cache.run (first ++ second) = (cache.run first).run second :=
  List.foldl_append

/-- A namespace that holds two small entries, or one of the largest size. -/
def crowdedPolicy : NamespacePolicy :=
  { mode := .readWrite
    maxEntries := 4
    maxBytes := 165
    maxKeyBytes := 1
    maxValueBytes := 100
    maxTtlSeconds := 60 }

def crowdedConfig : Config :=
  { namespaces := TreeMap.ofList [("n", crowdedPolicy)]
    maxTotalEntries := 16
    maxTotalBytes := 1000 }

/-- One write, and as many reads as bring the stamps back to where they were before it. -/
def wrappingOperations : List Operation :=
  [.put "n" "a" "" 60 0] ++ List.replicate (wordCount - 1) (.get "n" "z" 0)

/-- What the run of `wrappingOperations` leaves. -/
def wrapped (cache : Cache) : Cache :=
  { state :=
      { (cache.run [.put "n" "a" "" 60 0]).state with
        misses := saturatingAdd (cache.run [.put "n" "a" "" 60 0]).state.misses (wordCount - 1) }
    stamp := ((cache.run [.put "n" "a" "" 60 0]).stamp + (wordCount - 1)) % wordCount }

theorem exists_new_crowded : ∃ cache, Cache.new crowdedConfig = .ok cache := by
  have hvalid : crowdedConfig.validate = .ok () := Result.eq_ok_of_toBool (by decide +kernel)
  unfold Cache.new
  rw [hvalid]
  exact ⟨_, rfl⟩

theorem run_wrapping {cache : Cache} (hnew : Cache.new crowdedConfig = .ok cache) :
    cache.run wrappingOperations = wrapped cache := by
  unfold wrappingOperations
  rw [run_append]
  have hkeeps := Keeps.run_new hnew [.put "n" "a" "" 60 0] (by decide)
  have hpolicy : (cache.run [.put "n" "a" "" 60 0]).state.namespaces["n"]?.map Namespace.policy =
      some crowdedPolicy := by
    rw [hkeeps.policies]
    decide +kernel
  obtain ⟨ns, hns, hnsPolicy⟩ := Option.map_eq_some_iff.mp hpolicy
  have hread : ((cache.run [.put "n" "a" "" 60 0]).state.entry "n" "z",
      (cache.run [.put "n" "a" "" 60 0]).stamp,
      (cache.run [.put "n" "a" "" 60 0]).state.misses) = (none, 1, 0) := by
    refine Result.eq_of_toOption (fun cache : Cache =>
      ((cache.run [.put "n" "a" "" 60 0]).state.entry "n" "z",
        (cache.run [.put "n" "a" "" 60 0]).stamp,
        (cache.run [.put "n" "a" "" 60 0]).state.misses)) ?_ hnew
    decide +kernel
  rw [Prod.mk.injEq, Prod.mk.injEq] at hread
  obtain ⟨habsent, hstamp, hmisses⟩ := hread
  rw [State.entry_of_namespace hns] at habsent
  refine run_absent hns ?_ habsent ?_ ?_ (wordCount - 1)
  · rw [hnsPolicy]
    exact Result.eq_ok_of_toBool (by decide +kernel)
  · rw [hstamp]
    decide
  · rw [hmisses]
    decide

/-- After the stamps have wrapped, two entries can share one, and then an entry can be left that
no eviction finds: a write that passes its checks fails. -/
theorem writes_fail_after_wrapping : ¬ ∀ config cache, Cache.new config = .ok cache →
    ∀ operations name key value ttlSeconds nowMillis writer,
      WritesSafely (cache.run operations) name key value ttlSeconds nowMillis writer := by
  intro hall
  obtain ⟨cache, hnew⟩ := exists_new_crowded
  have hsafe := hall crowdedConfig cache hnew
    (wrappingOperations ++ [.put "n" "b" "" 60 0, .delete "n" "a"]) "n" "c"
    (String.ofList (List.replicate 100 'x')) 60 0 .guest
  rw [run_append, run_wrapping hnew] at hsafe
  have hread : (((wrapped cache).run [.put "n" "b" "" 60 0, .delete "n" "a"]).state.refusal "n" "c"
      (String.ofList (List.replicate 100 'x')) 60 0 .guest,
      (((wrapped cache).run [.put "n" "b" "" 60 0, .delete "n" "a"]).write "n" "c"
        (String.ofList (List.replicate 100 'x')) 60 0 .guest).1.toBool) = (none, false) := by
    refine Result.eq_of_toOption (fun cache : Cache =>
      (((wrapped cache).run [.put "n" "b" "" 60 0, .delete "n" "a"]).state.refusal "n" "c"
        (String.ofList (List.replicate 100 'x')) 60 0 .guest,
        (((wrapped cache).run [.put "n" "b" "" 60 0, .delete "n" "a"]).write "n" "c"
          (String.ofList (List.replicate 100 'x')) 60 0 .guest).1.toBool)) ?_ hnew
    decide +kernel
  rw [Prod.mk.injEq] at hread
  obtain ⟨hok, -⟩ := hsafe.accepted hread.1
  rw [hok] at hread
  cases hread.2

end Wrapping

/-! ## Least recently used -/

/-- A successful write or a hit of a pair. -/
def accesses (name key : String) : Operation × Outcome → Bool
  | (.get other otherKey _, .read (.ok (some _))) => other = name && otherKey = key
  | (.put other otherKey _ _ _, .done (.ok ())) => other = name && otherKey = key
  | (.seed other otherKey _ _ _, .done (.ok ())) => other = name && otherKey = key
  | _ => false

/-- The place of the last access of a pair among some calls, counted from one. -/
def lastAccess (calls : List (Operation × Outcome)) (name key : String) : ℕ :=
  calls.length - calls.reverse.findIdx (accesses name key)

/-- A delete is the only call that takes no stamp. -/
def takesStamp : Operation × Outcome → Bool
  | (.delete _ _, _) => false
  | _ => true

/-- Each entry has the stamp of its last access. -/
structure Dated (calls : List (Operation × Outcome)) (cache : Cache) : Prop where
  stamp : cache.stamp = calls.countP takesStamp
  entries : ∀ live, cache.state.Holds live → live.entry.stamp =
    (calls.take (lastAccess calls live.name live.key)).countP takesStamp

section History

variable {calls : List (Operation × Outcome)} {call : Operation × Outcome} {name key : String}

theorem lastAccess_le (calls : List (Operation × Outcome)) (name key : String) :
    lastAccess calls name key ≤ calls.length :=
  Nat.sub_le _ _

theorem lastAccess_snoc_of_accesses (haccess : accesses name key call = true) :
    lastAccess (calls ++ [call]) name key = calls.length + 1 := by
  unfold lastAccess
  rw [List.reverse_append, List.reverse_singleton, List.singleton_append, List.findIdx_cons,
    haccess, List.length_append, List.length_singleton]
  rfl

theorem lastAccess_snoc (haccess : accesses name key call = false) :
    lastAccess (calls ++ [call]) name key = lastAccess calls name key := by
  unfold lastAccess
  rw [List.reverse_append, List.reverse_singleton, List.singleton_append, List.findIdx_cons,
    haccess, List.length_append, List.length_singleton]
  exact Nat.add_sub_add_right _ _ _

theorem accesses_of_ne {operation : Operation} {outcome : Outcome}
    (hpair : (operation.name, operation.key) ≠ (name, key)) :
    accesses name key (operation, outcome) = false := by
  have hne : ¬ (operation.name = name ∧ operation.key = key) := by
    rwa [← Prod.mk.injEq]
  unfold accesses
  split
  all_goals
    rename_i heq
    simp only [Prod.mk.injEq] at heq
    first
    | rfl
    | rw [heq.1] at hne
      rw [Bool.and_eq_false_iff, decide_eq_false_iff_not, decide_eq_false_iff_not]
      exact not_and_or.mp hne

theorem Dated.kept {cache : Cache} (hdated : Dated calls cache) {live : Live}
    (hlive : cache.state.Holds live)
    (haccess : accesses live.name live.key call = false) :
    live.entry.stamp =
      ((calls ++ [call]).take (lastAccess (calls ++ [call]) live.name live.key)).countP
        takesStamp := by
  rw [lastAccess_snoc haccess,
    List.take_append_of_le_length (lastAccess_le calls live.name live.key)]
  exact hdated.entries live hlive

/-- A call dates the entry of its own pair, and other entries keep their dates. -/
theorem Dated.snoc {cache next : Cache} {operation : Operation} {outcome : Outcome}
    {nowMillis stamp : ℕ} {evicted expired : List (String × String)} (hdated : Dated calls cache)
    (heffect : cache.state.Effect next.state operation.name operation.key nowMillis stamp evicted
      expired)
    (hstamp : next.stamp = (calls ++ [(operation, outcome)]).countP takesStamp)
    (hown : ∀ entry, next.state.entry operation.name operation.key = some entry →
      (accesses operation.name operation.key (operation, outcome) = true ∧
        entry.stamp = next.stamp) ∨
      (accesses operation.name operation.key (operation, outcome) = false ∧
        cache.state.entry operation.name operation.key = some entry)) :
    Dated (calls ++ [(operation, outcome)]) next := by
  refine ⟨hstamp, ?_⟩
  intro live hlive
  by_cases hpair : (live.name, live.key) = (operation.name, operation.key)
  · rw [Prod.mk.injEq] at hpair
    unfold State.Holds at hlive
    rw [hpair.1, hpair.2] at hlive
    rcases hown live.entry hlive with ⟨haccess, hfresh⟩ | ⟨haccess, hbefore⟩
    · have hlength : (calls ++ [(operation, outcome)]).length = calls.length + 1 := by
        rw [List.length_append, List.length_singleton]
      rw [hpair.1, hpair.2, lastAccess_snoc_of_accesses haccess, ← hlength, List.take_length,
        hfresh, hstamp]
    · refine hdated.kept ?_ ?_
      · unfold State.Holds
        rw [hpair.1, hpair.2]
        exact hbefore
      · rw [hpair.1, hpair.2]
        exact haccess
  · refine hdated.kept ?_ (accesses_of_ne (Ne.symm hpair))
    by_cases hlost : (live.name, live.key) ∈ evicted ++ expired
    · unfold State.Holds at hlive
      rw [heffect.gone live.name live.key hpair hlost] at hlive
      cases hlive
    · unfold State.Holds
      rw [← heffect.kept live.name live.key hpair hlost]
      exact hlive

theorem State.entry_setNamespace {state changed : State} {ns : Namespace}
    (hchanged : changed.namespaces = (state.setNamespace name ns).namespaces) :
    changed.entry name key = ns.entries[key]? := by
  have hspace : changed.namespaces[name]? = some ns := by
    rw [hchanged]
    exact getElem?_setNamespace state name ns
  exact State.entry_of_namespace hspace key

/-- What a read leaves of its pair: on a hit the entry with a new stamp. -/
theorem State.get_own {state : State} {nowMillis stamp : ℕ} {entry : Entry}
    (hentry : (state.get name key nowMillis stamp).2.entry name key = some entry) :
    ((state.get name key nowMillis stamp).1 = .ok (some entry.value) ∧ entry.stamp = stamp) ∨
    ((∀ value, (state.get name key nowMillis stamp).1 ≠ .ok (some value)) ∧
      state.entry name key = some entry) := by
  unfold State.get at hentry ⊢
  cases hns : state.namespaces[name]? with
  | none =>
    rw [hns] at hentry
    exact Or.inr ⟨by simp, hentry⟩
  | some ns =>
    simp only [hns] at hentry ⊢
    cases hkey : validateKey key ns.policy.maxKeyBytes with
    | error error =>
      rw [hkey] at hentry
      exact Or.inr ⟨by simp, hentry⟩
    | ok _ =>
      simp only [hkey] at hentry ⊢
      cases hfound : ns.entries[key]? with
      | none =>
        simp only [hfound] at hentry ⊢
        exact Or.inr ⟨by simp, hentry⟩
      | some found =>
        simp only [hfound] at hentry ⊢
        by_cases hexpired : found.expiresAtMillis ≤ nowMillis
        · rw [if_pos hexpired] at hentry
          have hremoved : (ns.remove key).1.entries[key]? = none := by
            unfold Namespace.remove
            rw [hfound]
            exact getElem?_erase_self _ _
          have hspace := (State.entry_setNamespace (by rfl)).symm.trans hentry
          rw [hremoved] at hspace
          cases hspace
        · rw [if_neg hexpired] at hentry ⊢
          have hrefreshed :
              (ns.refresh key found stamp).entries[key]? = some { found with stamp } :=
            getElem?_insert_self _ _ _
          have hspace := (State.entry_setNamespace (by rfl)).symm.trans hentry
          rw [hrefreshed, Option.some.injEq] at hspace
          left
          rw [← hspace]
          exact ⟨rfl, rfl⟩

/-- A write dates its entry. -/
theorem Dated.write {cache : Cache} {value : String} {ttlSeconds : ℤ} {nowMillis : ℕ}
    (writer : Writer) (hbetween : Between calls cache) (hdated : Dated calls cache)
    (hstamp : cache.stamp + 1 < wordCount) {operation : Operation}
    (hpair : operation.name = name ∧ operation.key = key)
    (htakes : ∀ outcome, takesStamp (operation, outcome) = true)
    (haccess : ∀ result, accesses name key (operation, .done result) = true ↔ result = .ok ()) :
    Dated (calls ++
        [(operation, .done (cache.write name key value ttlSeconds nowMillis writer).1)])
      (cache.write name key value ttlSeconds nowMillis writer).2 := by
  obtain ⟨hname, hkey⟩ := hpair
  subst hname hkey
  obtain ⟨evicted, expired, heffect, hresult⟩ := hbetween.sound.write hbetween.counted
    operation.name operation.key value ttlSeconds nowMillis writer cache.nextStamp
  refine hdated.snoc heffect ?_ ?_
  · have hnext : cache.nextStamp = cache.stamp + 1 := Nat.mod_eq_of_lt hstamp
    show cache.nextStamp = _
    rw [hnext, List.countP_append, List.countP_singleton, if_pos (htakes _), hdated.stamp]
  · intro entry hentry
    rcases hresult with ⟨hok, expiresAtMillis, -, hstored⟩ | ⟨hfailed, hkept⟩
    · left
      refine ⟨(haccess _).mpr hok, ?_⟩
      have hsame : some entry = some { value, expiresAtMillis, stamp := cache.nextStamp } := by
        rw [← hstored]
        exact hentry.symm
      rw [Option.some.injEq] at hsame
      rw [hsame]
      rfl
    · right
      refine ⟨?_, hkept entry hentry⟩
      rw [Bool.eq_false_iff]
      intro hsucceeds
      exact hfailed ((haccess _).mp hsucceeds)

theorem Dated.step {cache : Cache} (hbetween : Between calls cache) (hdated : Dated calls cache)
    (hstamp : cache.stamp + 1 < wordCount) (operation : Operation) :
    Dated (calls ++ [(operation, (cache.step operation).1)]) (cache.step operation).2 := by
  have hnext : cache.nextStamp = cache.stamp + 1 := Nat.mod_eq_of_lt hstamp
  have hdone : ∀ result : Except Error Unit, result = .ok () ∨ ∃ error, result = .error error := by
    intro result
    cases result with
    | ok _ => exact Or.inl rfl
    | error error => exact Or.inr ⟨error, rfl⟩
  cases operation with
  | get name key now =>
    obtain ⟨expired, heffect, -⟩ :=
      hbetween.sound.get hbetween.counted name key now cache.nextStamp
    refine hdated.snoc heffect ?_ ?_
    · show cache.nextStamp = _
      rw [hnext, List.countP_append, hdated.stamp]
      rfl
    · intro entry hentry
      rcases State.get_own hentry with ⟨hhit, hfresh⟩ | ⟨hmiss, hbefore⟩
      · left
        refine ⟨?_, hfresh⟩
        have houtcome : (cache.step (.get name key now)).1 = .read (.ok (some entry.value)) :=
          congrArg Outcome.read hhit
        rw [houtcome]
        simp [accesses, Operation.name, Operation.key]
      · right
        refine ⟨?_, hbefore⟩
        unfold accesses
        split
        all_goals
          rename_i heq
          simp only [Prod.mk.injEq, reduceCtorEq, false_and] at heq
        · rename_i value
          have hread : (cache.state.get name key now cache.nextStamp).1 = .ok (some value) :=
            Outcome.read.inj heq.2
          exact absurd hread (hmiss value)
        · rfl
  | put name key value ttl now =>
    refine hdated.write .guest hbetween hstamp ⟨rfl, rfl⟩ (fun _ => rfl) ?_
    intro result
    rcases hdone result with hok | ⟨error, herror⟩
    · rw [hok]
      simp [accesses]
    · rw [herror]
      simp [accesses]
  | seed name key value ttl now =>
    refine hdated.write .host hbetween hstamp ⟨rfl, rfl⟩ (fun _ => rfl) ?_
    intro result
    rcases hdone result with hok | ⟨error, herror⟩
    · rw [hok]
      simp [accesses]
    · rw [herror]
      simp [accesses]
  | delete name key =>
    obtain ⟨heffect, -, hkept, -⟩ :=
      hbetween.sound.delete hbetween.counted name key 0 cache.nextStamp
    refine hdated.snoc heffect ?_ ?_
    · show cache.stamp = _
      rw [List.countP_append, hdated.stamp]
      rfl
    · intro entry hentry
      exact Or.inr ⟨rfl, hkept entry hentry⟩

theorem Dated.run {cache : Cache} (hbetween : Between calls cache) (hdated : Dated calls cache)
    (operations : List Operation) (hlength : cache.stamp + operations.length < wordCount) :
    Dated (calls ++ cache.trace operations) (cache.run operations) := by
  induction operations generalizing calls cache with
  | nil =>
    unfold trace
    rw [List.append_nil]
    exact hdated
  | cons operation rest ih =>
    rw [List.length_cons] at hlength
    obtain ⟨-, -, -, hnext⟩ := hbetween.step operation
    have hstep := hdated.step hbetween (by omega) operation
    have hcount : (cache.step operation).2.stamp ≤ cache.stamp + 1 := by
      rw [hstep.stamp, hdated.stamp, List.countP_append]
      have hone : [(operation, (cache.step operation).1)].countP takesStamp ≤ _ :=
        List.countP_le_length
      rw [List.length_singleton] at hone
      omega
    have hrest := ih hnext hstep (by omega)
    rw [List.append_assoc] at hrest
    exact hrest

/-- Later stamps are later accesses. -/
theorem Dated.lastAccess_lt {cache : Cache} (hdated : Dated calls cache) {first second : Live}
    (hfirst : cache.state.Holds first) (hsecond : cache.state.Holds second)
    (hlt : first.entry.stamp < second.entry.stamp) :
    lastAccess calls first.name first.key < lastAccess calls second.name second.key := by
  by_contra hle
  have hprefix := List.take_prefix_take_left (l := calls) (Nat.not_lt.mp hle)
  have hcount := hprefix.sublist.countP_le (p := takesStamp)
  rw [← hdated.entries first hfirst, ← hdated.entries second hsecond] at hcount
  omega

theorem Dated.new {config : Config} {cache : Cache} (hnew : Cache.new config = .ok cache) :
    Dated [] cache where
  stamp := (new_eq_ok hnew).2.2.2.2.2
  entries := by
    intro live hlive
    obtain ⟨ns, hns, hentry⟩ := State.holds_iff.mp hlive
    obtain ⟨policy, -, heq⟩ := new_namespace hnew hns
    rw [heq, Namespace.entries_new] at hentry
    cases hentry

end History

/-- After the sweep and the removal of the replaced entry, a write evicts the shortest beginning
of its namespace's entries, in the order of their last access, that makes it fit there, and then
the shortest beginning of all entries in that order that makes it fit the whole cache. -/
def EvictsLeastRecent (calls : List (Operation × Outcome)) (cache : Cache)
    (name key value : String) (ttlSeconds : ℤ) (nowMillis : ℕ) (writer : Writer) : Prop :=
  ∃ ns all own others, cache.state.namespaces[name]? = some ns ∧
    (∀ live, live ∈ all ↔ (cache.state.clearFor name key ns nowMillis).Holds live) ∧
    (all.Pairwise fun first second =>
      lastAccess calls first.name first.key < lastAccess calls second.name second.key) ∧
    Evictions ns.policy cache.state.maxTotalEntries cache.state.maxTotalBytes name
      (charge key value) all own others ∧
    ∀ live : Live, (live.name, live.key) ≠ (name, key) →
      ((cache.write name key value ttlSeconds nowMillis writer).2.state.Holds live ↔
        (cache.state.clearFor name key ns nowMillis).Holds live ∧ live ∉ own ∧ live ∉ others)

/-- As long as the stamps have not wrapped, an accepted write evicts what was used least
recently, and no more than it must. -/
theorem evictions_least_recently_used {config : Config} {cache : Cache}
    (hnew : Cache.new config = .ok cache) (operations : List Operation)
    (hlength : operations.length < wordCount) {name key value : String} {ttlSeconds : ℤ}
    {nowMillis : ℕ} {writer : Writer}
    (haccepted : ((cache.run operations).write name key value ttlSeconds nowMillis writer).1 =
      .ok ()) :
    EvictsLeastRecent (cache.trace operations) (cache.run operations) name key value ttlSeconds
      nowMillis writer := by
  have hkeeps := Keeps.run_new hnew operations hlength
  have hcount := run_counted hnew operations
  have hstamp := (new_eq_ok hnew).2.2.2.2.2
  have hdated := (Dated.new hnew).run (Between.new hnew) operations (by omega)
  rw [List.nil_append] at hdated
  have hsafe := hkeeps.writesSafely (new_eq_ok hnew).1 hcount name key value ttlSeconds nowMillis
    writer
  cases hrefusal : (cache.run operations).state.refusal name key value ttlSeconds nowMillis
      writer with
  | some error =>
    rw [(hsafe.refused error hrefusal).2.1] at haccepted
    cases haccepted
  | none =>
    obtain ⟨ns, expiresAtMillis, hns, hcheck⟩ := State.refusal_eq_none hrefusal
    obtain ⟨-, -, -, all, own, others, hall, hevictions, hholds⟩ :=
      hkeeps.represents.write_accepted hcount hns hcheck
        (hkeeps.admits (new_eq_ok hnew).1 hns hcheck) (cache.run operations).nextStamp
    refine ⟨ns, all, own, others, hns, hall.mem, ?_, hevictions, hholds⟩
    -- what is left after the clearing was there before it
    obtain ⟨expired, replaced, hclears⟩ :=
      State.Sound.clearFor hkeeps.represents.sound hns key nowMillis
    refine hall.order.imp_of_mem ?_
    intro first second hfirst hsecond hlt
    exact hdated.lastAccess_lt (hclears.loses.lost ((hall.mem first).mp hfirst))
      (hclears.loses.lost ((hall.mem second).mp hsecond)) hlt

theorem evictions_least_recently_used_sample : ∃ cache, Cache.new sampleConfig = .ok cache ∧
    (sampleOperations.take 3).length < wordCount ∧
    ((cache.run (sampleOperations.take 3)).write "sessions" "cyd" "three" 30 30 .host).1 =
      .ok () ∧
    EvictsLeastRecent (cache.trace (sampleOperations.take 3))
      (cache.run (sampleOperations.take 3)) "sessions" "cyd" "three" 30 30 .host := by
  obtain ⟨cache, hnew⟩ := exists_new_sample
  have haccepted : ((cache.run (sampleOperations.take 3)).write "sessions" "cyd" "three" 30 30
      .host).1 = .ok () := by
    refine Result.eq_ok_of_toOption (fun cache : Cache =>
      ((cache.run (sampleOperations.take 3)).write "sessions" "cyd" "three" 30 30 .host).1) ?_ hnew
    decide +kernel
  exact ⟨cache, hnew, by decide, haccepted,
    evictions_least_recently_used hnew (sampleOperations.take 3) (by decide) haccepted⟩

theorem trace_append (cache : Cache) (first second : List Operation) :
    cache.trace (first ++ second) = cache.trace first ++ (cache.run first).trace second := by
  induction first generalizing cache with
  | nil => rfl
  | cons operation rest ih =>
    rw [List.cons_append, trace, trace, ih, List.cons_append]
    rfl

/-- What the writes after `wrappingOperations` leave of the two entries: which are there before
the last write and after it. -/
def wrappedEntries (cache : Cache) : List (Option Entry) × Bool × Bool :=
  let reached := (wrapped cache).run [.put "n" "b" "" 60 0]
  let cleared := reached.state.namespaces["n"]?.map (reached.state.clearFor "n" "c" · 0)
  let after := (reached.write "n" "c" "" 60 0 .guest).2.state
  ([cleared.bind (·.entry "n" "a"), cleared.bind (·.entry "n" "b"), after.entry "n" "a",
      after.entry "n" "b"],
    ((wrapped cache).write "n" "b" "" 60 0 .guest).1.toBool,
    (reached.write "n" "c" "" 60 0 .guest).1.toBool)

/-- After the stamps have wrapped, a write can evict the newer of two entries. -/
theorem evictions_misordered_after_wrapping : ¬ ∀ config cache, Cache.new config = .ok cache →
    ∀ operations name key value ttlSeconds nowMillis writer,
      ((cache.run operations).write name key value ttlSeconds nowMillis writer).1 = .ok () →
      EvictsLeastRecent (cache.trace operations) (cache.run operations) name key value ttlSeconds
        nowMillis writer := by
  intro hall
  obtain ⟨cache, hnew⟩ := exists_new_crowded
  have hrun : cache.run (wrappingOperations ++ [.put "n" "b" "" 60 0]) =
      (wrapped cache).run [.put "n" "b" "" 60 0] := by
    rw [run_append, run_wrapping hnew]
  have hread : wrappedEntries cache =
      ([some ⟨"", 60000, 1⟩, some ⟨"", 60000, 1⟩, some ⟨"", 60000, 1⟩, none], true, true) := by
    refine Result.eq_of_toOption wrappedEntries ?_ hnew
    decide +kernel
  unfold wrappedEntries at hread
  simp only [Prod.mk.injEq, List.cons.injEq, and_true] at hread
  obtain ⟨⟨holder, hnewer, holderAfter, hnewerAfter⟩, hwritten, haccepted⟩ := hread
  have hevicts := hall crowdedConfig cache hnew (wrappingOperations ++ [.put "n" "b" "" 60 0])
    "n" "c" "" 60 0 .guest (by rw [hrun]; exact Result.eq_ok_of_toBool haccepted)
  rw [hrun] at hevicts
  obtain ⟨ns, all, own, others, hns, hmem, horder, hevictions, hholds⟩ := hevicts
  rw [hns] at holder hnewer
  -- the older of the two entries comes first in the order of accesses
  have hbefore : lastAccess (cache.trace (wrappingOperations ++ [.put "n" "b" "" 60 0])) "n" "a" <
      lastAccess (cache.trace (wrappingOperations ++ [.put "n" "b" "" 60 0])) "n" "b" := by
    have htrace : (cache.run wrappingOperations).trace [.put "n" "b" "" 60 0] =
        [(.put "n" "b" "" 60 0, .done (.ok ()))] := by
      rw [run_wrapping hnew]
      have hput : ((wrapped cache).put "n" "b" "" 60 0).1 = .ok () :=
        Result.eq_ok_of_toBool hwritten
      simp only [trace, Cache.step, hput]
    rw [trace_append, htrace, lastAccess_snoc (by decide),
      lastAccess_snoc_of_accesses (by decide)]
    exact Nat.lt_succ_of_le (lastAccess_le _ _ _)
  have holderMem : (⟨"n", "a", ⟨"", 60000, 1⟩⟩ : Live) ∈ all := (hmem _).mpr holder
  have hkept := (hholds ⟨"n", "a", ⟨"", 60000, 1⟩⟩ (by decide)).mp holderAfter
  have hgone : ¬ (((wrapped cache).run [.put "n" "b" "" 60 0]).write "n" "c" "" 60 0
      .guest).2.state.Holds ⟨"n", "b", ⟨"", 60000, 1⟩⟩ := by
    unfold State.Holds
    rw [hnewerAfter]
    exact Ne.symm (Option.some_ne_none _)
  have hasymm : ∀ first second : Live,
      lastAccess (cache.trace (wrappingOperations ++ [.put "n" "b" "" 60 0])) first.name first.key <
        lastAccess (cache.trace (wrappingOperations ++ [.put "n" "b" "" 60 0])) second.name
          second.key → ¬ _ < _ :=
    fun first second hlt => Nat.lt_asymm hlt
  refine hgone ((hholds _ (by decide)).mpr ⟨hnewer, ?_, ?_⟩)
  · intro hown
    refine hkept.2.1 (hevictions.namespaceBudget.mem_of_before hasymm (horder.filter _) ?_ hown
      hbefore)
    exact List.mem_filter.mpr ⟨holderMem, by decide⟩
  · intro hothers
    refine hkept.2.2 (hevictions.wholeBudget.mem_of_before hasymm (horder.filter _) ?_ hothers
      hbefore)
    exact List.mem_filter.mpr ⟨holderMem, decide_eq_true hkept.2.1⟩

end Krit.Cache
