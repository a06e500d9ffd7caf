import Krit.RetentionProtocol

/-!
# The bounds of retention

A completion evicts the records that were used longest ago until the others fit.  Its
own record is used last and fits alone, so the loop always finds another one to evict
and stops with that record still there.
-/

namespace Krit.Durable

open Machine Std

/-! ## Counting with words -/

theorem asUsize_natCast {count : ℕ} (hcount : count < wordCount) : asUsize count = count := by
  unfold asUsize
  rw [Int.emod_eq_of_lt (by omega) (by exact_mod_cast hcount), Int.toNat_natCast]

/-- A sum within a bound that fits is not negative. -/
theorem asUsize_le {value : ℤ} {bound : ℕ} (hlow : i64Min ≤ value) (hhigh : value ≤ i64Max)
    (hbound : (bound : ℤ) ≤ i64Max) (hle : asUsize value ≤ bound) : 0 ≤ value ∧ value ≤ bound := by
  unfold asUsize wordCount at hle
  unfold i64Min at hlow
  unfold i64Max at hhigh hbound
  omega

theorem asUsize_of_nonneg {value : ℤ} (hlow : 0 ≤ value) (hhigh : value ≤ i64Max) :
    (asUsize value : ℤ) = value := by
  unfold asUsize wordCount
  unfold i64Max at hhigh
  omega

theorem countAndSum_eq_error {sizes : List ℤ} {error : StateError}
    (hcount : countAndSum sizes = .error error) : error = databaseOperationFailed := by
  unfold countAndSum at hcount
  cases hsum : i64TryFrom sizes.sum with
  | none =>
    rw [hsum] at hcount
    cases hcount
    rfl
  | some found =>
    rw [hsum] at hcount
    cases hcount

namespace Records

variable {κ : Type} [DecidableEq κ] {records next : Records κ} {policy : RetentionPolicy}

/-- The completed records fit a policy. -/
structure Within (policy : RetentionPolicy) (completed : List (κ × RetainedRow)) : Prop where
  entries : completed.length ≤ policy.maxEntries
  bytes : (completed.map fun entry => entry.2.sizeBytes).sum ≤ policy.maxBytes

/-- A completed record that was used last and that fits a policy alone. -/
structure Newest (policy : RetentionPolicy) (completed : List (κ × RetainedRow))
    (fresh : κ × RetainedRow) : Prop where
  mem : fresh ∈ completed
  after : ∀ entry ∈ completed, entry = fresh ∨ entry.2.lastUsed < fresh.2.lastUsed
  nonneg : 0 ≤ fresh.2.sizeBytes
  fits : fresh.2.sizeBytes ≤ policy.maxBytes

/-- The bounds under which the counts of the loop are exact. -/
structure Countable (policy : RetentionPolicy) (completed : List (κ × RetainedRow)) : Prop where
  rows : completed.length < wordCount
  one : 1 ≤ policy.maxEntries
  bytes : (policy.maxBytes : ℤ) ≤ i64Max

/-- One turn of the loop: a sum that overflows, records that fit, or the eviction of a
record other than the newest one. -/
theorem enforceLimits_turn {fuel : ℕ} {fresh : κ × RetainedRow}
    (hfuel : records.completed.length ≤ fuel) (hcountable : Countable policy records.completed)
    (hnewest : Newest policy records.completed fresh) :
    enforceLimits policy fuel records = .error databaseOperationFailed ∨
    (enforceLimits policy fuel records = .ok ([], records) ∧ Within policy records.completed) ∨
    ∃ rest oldest, fuel = rest + 1 ∧
      Table.least (fun entry => entry.2.lastUsed) records.completed = some oldest ∧
      oldest ≠ fresh ∧
      enforceLimits policy fuel records = (do
        let (evicted, next) ← enforceLimits policy rest
          { records with rows := records.rows.delete fun other _ => other == oldest.1 }
        pure (oldest.1 :: evicted, next)) := by
  cases hcount : countAndSum (records.completed.map fun entry => entry.2.sizeBytes) with
  | error error =>
    left
    unfold enforceLimits
    rw [hcount, countAndSum_eq_error hcount]
    rfl
  | ok counted =>
    right
    obtain ⟨entries, bytes⟩ := counted
    obtain ⟨hentries, hbytes, hlow, hhigh⟩ := countAndSum_eq_ok hcount
    rw [List.length_map] at hentries
    by_cases hfits : asUsize entries ≤ policy.maxEntries ∧ asUsize bytes ≤ policy.maxBytes
    · left
      refine ⟨?_, ?_, ?_⟩
      · unfold enforceLimits
        simp only [hcount, bind, Except.bind, if_pos hfits]
        rfl
      · have hle := hfits.1
        rw [hentries, asUsize_natCast hcountable.rows] at hle
        exact hle
      · rw [← hbytes]
        exact (asUsize_le hlow hhigh hcountable.bytes hfits.2).2
    · right
      cases hleast : Table.least (fun entry => entry.2.lastUsed) records.completed with
      | none =>
        have hmem := hnewest.mem
        rw [Table.least_eq_none_iff.mp hleast] at hmem
        cases hmem
      | some oldest =>
        have hpositive := List.length_pos_of_mem hnewest.mem
        obtain ⟨rest, hrest⟩ := Nat.exists_eq_add_of_lt (Nat.lt_of_lt_of_le hpositive hfuel)
        rw [Nat.zero_add] at hrest
        subst hrest
        have hturn : enforceLimits policy (rest + 1) records = (do
            let (evicted, next) ← enforceLimits policy rest
              { records with rows := records.rows.delete fun other _ => other == oldest.1 }
            pure (oldest.1 :: evicted, next)) := by
          conv_lhs => unfold enforceLimits
          simp only [hcount, hleast, bind, Except.bind, if_neg hfits]
        refine ⟨rest, oldest, rfl, rfl, ?_, hturn⟩
        -- If the newest record were the oldest too, it would be alone, and alone it fits.
        intro hsame
        apply hfits
        have hothers : ∀ entry ∈ records.completed, entry = fresh := by
          intro entry hentry
          rcases hnewest.after entry hentry with heq | hlt
          · exact heq
          · have hle := (Table.least_spec hleast).2 entry hentry
            rw [hsame] at hle
            omega
        have hnodup : records.completed.Nodup := (records.rows.nodup.of_map _).filter _
        have halone : records.completed = [fresh] := by
          rw [← List.perm_singleton, List.perm_ext_iff_of_nodup hnodup (List.nodup_singleton _)]
          intro entry
          rw [List.mem_singleton]
          constructor
          · exact hothers entry
          · intro heq
            rw [heq]
            exact hnewest.mem
        rw [halone] at hentries hbytes
        constructor
        · rw [hentries]
          exact hcountable.one
        · have hsum : bytes = fresh.2.sizeBytes := by simpa using hbytes
          have hexact := asUsize_of_nonneg (by rw [hsum]; exact hnewest.nonneg) hhigh
          have hsize := hnewest.fits
          omega

/-- What the loop has done: it has evicted the oldest completed records, one after the
other, and the others fit. -/
structure Enforced (policy : RetentionPolicy) (records next : Records κ) (evicted : List κ)
    (dropped : List (κ × RetainedRow)) : Prop where
  within : Within policy next.completed
  keys : evicted = dropped.map Prod.fst
  split : records.completed.Perm (dropped ++ next.completed)
  sorted : dropped.Pairwise fun first second => first.2.lastUsed ≤ second.2.lastUsed
  older : ∀ lost ∈ dropped, ∀ kept ∈ next.completed, lost.2.lastUsed ≤ kept.2.lastUsed

theorem completed_delete {oldest : κ × RetainedRow} (hmem : oldest ∈ records.completed) :
    records.completed.Perm (oldest ::
      { records with rows := records.rows.delete fun other _ => other == oldest.1 }.completed) := by
  obtain ⟨hfind, hstatus⟩ := Table.mem_select_iff.mp hmem
  have hperm := (Table.rows_delete_perm hfind).filter
    fun entry => entry.2.status == RetainedStatus.completed
  rw [List.filter_cons_of_pos (by exact hstatus)] at hperm
  exact hperm

/-- The loop ends within its fuel: it fails on a sum that overflows, or it has enforced
the bounds without evicting the newest record. -/
theorem enforceLimits_enforced {fuel : ℕ} {fresh : κ × RetainedRow}
    (hfuel : records.completed.length ≤ fuel) (hcountable : Countable policy records.completed)
    (hnewest : Newest policy records.completed fresh) :
    enforceLimits policy fuel records = .error databaseOperationFailed ∨
    ∃ evicted next dropped, enforceLimits policy fuel records = .ok (evicted, next) ∧
      Enforced policy records next evicted dropped ∧ fresh ∈ next.completed := by
  induction fuel generalizing records with
  | zero =>
    have hpositive := List.length_pos_of_mem hnewest.mem
    omega
  | succ fuel ih =>
    rcases enforceLimits_turn hfuel hcountable hnewest with
      hoverflow | ⟨hstop, hwithin⟩ | ⟨rest, oldest, hrest, hleast, hne, hturn⟩
    · exact Or.inl hoverflow
    · right
      refine ⟨[], records, [], hstop, ⟨hwithin, rfl, List.Perm.refl _, List.Pairwise.nil, ?_⟩,
        hnewest.mem⟩
      intro lost hlost
      cases hlost
    · rw [Nat.succ.injEq] at hrest
      subst hrest
      obtain ⟨hmem, hle⟩ := Table.least_spec hleast
      have hperm := completed_delete hmem
      have hlength := hperm.length_eq
      rw [List.length_cons] at hlength
      have hstays : fresh ∈ { records with
          rows := records.rows.delete fun other _ => other == oldest.1 }.completed := by
        have hfresh := hperm.mem_iff.mp hnewest.mem
        rcases List.mem_cons.mp hfresh with heq | hfresh
        · exact absurd heq.symm hne
        · exact hfresh
      have hrestFuel : { records with
          rows :=
            records.rows.delete fun other _ => other == oldest.1 }.completed.length ≤ fuel := by
        omega
      have hrestCountable : Countable policy { records with
          rows := records.rows.delete fun other _ => other == oldest.1 }.completed := by
        refine ⟨?_, hcountable.one, hcountable.bytes⟩
        have hrows := hcountable.rows
        omega
      have hrestNewest : Newest policy { records with
          rows := records.rows.delete fun other _ => other == oldest.1 }.completed fresh := by
        refine ⟨hstays, ?_, hnewest.nonneg, hnewest.fits⟩
        intro entry hentry
        exact hnewest.after entry (hperm.mem_iff.mpr (List.mem_cons_of_mem _ hentry))
      rcases ih hrestFuel hrestCountable hrestNewest with
        hoverflow | ⟨evicted, next, dropped, hloop, henforced, hfresh⟩
      · left
        rw [hturn, hoverflow]
        rfl
      · right
        refine ⟨oldest.1 :: evicted, next, oldest :: dropped, ?_, ?_, hfresh⟩
        · rw [hturn, hloop]
          rfl
        · have hsplit : records.completed.Perm ((oldest :: dropped) ++ next.completed) :=
            hperm.trans (henforced.split.cons oldest)
          have hall :
              ∀ entry ∈ dropped ++ next.completed, oldest.2.lastUsed ≤ entry.2.lastUsed := by
            intro entry hentry
            exact hle entry (hsplit.mem_iff.mpr (List.mem_cons_of_mem _ hentry))
          refine ⟨henforced.within, ?_, hsplit, ?_, ?_⟩
          · rw [henforced.keys, List.map_cons]
          · refine List.pairwise_cons.mpr ⟨?_, henforced.sorted⟩
            intro entry hentry
            exact hall entry (List.mem_append_left _ hentry)
          · intro lost hlost kept hkept
            rcases List.mem_cons.mp hlost with heq | hlost
            · rw [heq]
              exact hall kept (List.mem_append_right _ hkept)
            · exact henforced.older lost hlost kept hkept

/-! ## Completions -/

/-- What a completion must have done to a table: its own record is there, completed; the
completed records fit the policy; the evicted ones are the first of the others in the
order of last use; and everything else is as before. -/
structure Retained (policy : RetentionPolicy) (key : κ) (result : Bytes)
    (before after : Table κ RetainedRow) (evicted : List κ) : Prop where
  entries : (after.select fun _ row => row.status == .completed).length ≤ policy.maxEntries
  bytes : ((after.select fun _ row => row.status == .completed).map
    fun entry => entry.2.sizeBytes).sum ≤ policy.maxBytes
  fresh : ∃ row, after.find key = some row ∧ row.status = .completed ∧ row.result = some result
  oldest : ∃ order : List (κ × RetainedRow),
    order.Perm (before.select fun _ row => row.status == .completed) ∧
      order.Pairwise (fun first second => first.2.lastUsed ≤ second.2.lastUsed) ∧
      evicted <+: order.map Prod.fst
  gone : ∀ other ∈ evicted, after.find other = none
  others : ∀ other, other ≠ key → other ∉ evicted → after.find other = before.find other

/-- What completing a record writes. -/
structure Completes (stored : Bytes) (sequence : ℤ) (change : RetainedRow → RetainedRow) :
    Prop where
  status : ∀ row, (change row).status = .completed
  result : ∀ row, (change row).result = some stored
  size : ∀ row, (change row).sizeBytes = (stored.length : ℤ)
  lastUsed : ∀ row, (change row).lastUsed = sequence

/-- Completing an undecided record adds it to the completed ones. -/
theorem completed_update {rows : Table κ RetainedRow} {lease : Lease κ} {old : RetainedRow}
    {change : RetainedRow → RetainedRow} (hfind : rows.find lease.key = some old)
    (howns : lease.owns lease.key old = true) (hcompleted : (change old).status = .completed) :
    ((rows.update lease.owns change).select fun _ row => row.status == .completed).Perm
      ((lease.key, change old) :: rows.select fun _ row => row.status == .completed) := by
  have hundecided := (Lease.owns_iff.mp howns).2.2.1
  have hout : (lease.key, change old) ∉ rows.select fun _ row => row.status == .completed := by
    intro hmem
    have hfound := (Table.mem_select_iff.mp hmem).1
    rw [hfind, Option.some.injEq] at hfound
    rw [← hfound, hundecided] at hcompleted
    cases hcompleted
  have hnodup := (rows.nodup.of_map _).filter
    fun entry => entry.2.status == RetainedStatus.completed
  refine (List.perm_ext_iff_of_nodup (((Table.nodup _).of_map _).filter _)
    (List.nodup_cons.mpr ⟨hout, hnodup⟩)).mpr ?_
  rintro ⟨key, found⟩
  change (key, found) ∈ (rows.update lease.owns change).select
    (fun _ row => row.status == .completed) ↔ _
  rw [Table.mem_select_iff, Table.find_update, List.mem_cons, Table.mem_select_iff, Prod.mk.injEq]
  by_cases hkey : key = lease.key
  · subst hkey
    rw [hfind, Option.map_some, if_pos howns, Option.some.injEq, Option.some.injEq]
    constructor
    · rintro ⟨hrow, -⟩
      exact Or.inl ⟨rfl, hrow.symm⟩
    · rintro (⟨-, hrow⟩ | ⟨hrow, hstatus⟩)
      · rw [hrow, hcompleted]
        exact ⟨rfl, rfl⟩
      · rw [← hrow, hundecided] at hstatus
        cases hstatus
  · have hnot : ∀ other, lease.owns key other = false := by
      intro other
      rw [← Bool.not_eq_true]
      intro howned
      exact hkey (lease.owns_key key other howned)
    cases hother : rows.find key with
    | none => simp [hkey]
    | some other => simp [hkey, hnot]

/-- A completion fails before the loop, or it has completed the record of its lease and
runs the loop. -/
theorem complete_cases {lease : Lease κ} {result : Bytes} {nowMillis : ℤ} {stale : String} :
    (∃ error, records.complete lease result nowMillis policy stale = .error error ∧
      error ≠ .database "durable retention cleanup could not evict a record") ∨
    ∃ old change, records.rows.find lease.key = some old ∧ lease.owns lease.key old = true ∧
      Completes result (records.sequence + 1) change ∧
      let updated : Records κ := ⟨records.sequence + 1, records.rows.update lease.owns change⟩
      records.complete lease result nowMillis policy stale =
        enforceLimits policy updated.completed.length updated := by
  unfold complete nextSequence checkedDeadline
  cases hsequence : i64TryFrom (records.sequence + 1) with
  | none => exact Or.inl ⟨databaseOperationFailed, rfl, by decide⟩
  | some sequence =>
    have hexact := i64TryFrom_eq_some hsequence
    subst hexact
    cases hmillis : i64TryFrom policy.ttl.asMillis with
    | none => exact Or.inl ⟨_, rfl, by decide⟩
    | some millis =>
      cases hdeadline : i64TryFrom (nowMillis + millis) with
      | none =>
        left
        refine ⟨.limit "durable deadline overflowed", ?_, by decide⟩
        simp only [Result.ofOption, hdeadline, bind, Except.bind, pure, Except.pure]
      | some expiresAt =>
        rcases Table.select_eq_nil_or_singleton records.rows lease.owns_key with
          ⟨hnone, -⟩ | ⟨old, hone, hfind, howns⟩
        · left
          refine ⟨.replay stale, ?_, fun heq => by cases heq⟩
          simp only [Result.ofOption, hdeadline, bind, Except.bind, pure, Except.pure, hnone]
          rfl
        · right
          refine ⟨old, fun row =>
            { row with
              status := .completed
              owner := none
              leaseUntil := none
              result := some result
              expiresAt := some expiresAt
              lastUsed := records.sequence + 1
              sizeBytes := result.length },
            hfind, howns, ⟨fun _ => rfl, fun _ => rfl, fun _ => rfl, fun _ => rfl⟩, ?_⟩
          simp only [Result.ofOption, hdeadline, bind, Except.bind, pure, Except.pure, hone]
          rfl

/-- The loop runs on a table where the record just completed is the newest. -/
theorem newest_of_completes {lease : Lease κ} {result : Bytes} {old : RetainedRow}
    {change : RetainedRow → RetainedRow} {completed : List (κ × RetainedRow)}
    (hused : ∀ key row, records.rows.find key = some row → row.lastUsed ≤ records.sequence)
    (hsize : result.length ≤ policy.maxBytes)
    (hwrites : Completes result (records.sequence + 1) change)
    (hperm : completed.Perm ((lease.key, change old) :: records.completed)) :
    Newest policy completed (lease.key, change old) := by
  refine ⟨hperm.mem_iff.mpr List.mem_cons_self, ?_, ?_, ?_⟩
  · intro entry hentry
    rcases List.mem_cons.mp (hperm.mem_iff.mp hentry) with heq | hother
    · exact Or.inl heq
    · right
      have hle := hused entry.1 entry.2 (Table.mem_select_iff.mp hother).1
      have hlast : (lease.key, change old).2.lastUsed = records.sequence + 1 :=
        hwrites.lastUsed old
      omega
  · have hwritten : (lease.key, change old).2.sizeBytes = (result.length : ℤ) := hwrites.size old
    omega
  · have hwritten : (lease.key, change old).2.sizeBytes = (result.length : ℤ) := hwrites.size old
    omega

omit [DecidableEq κ] in
/-- The evicted records come first in an order of last use of the others. -/
theorem oldest_of_enforced {updated : Records κ} {evicted : List κ} {fresh : κ × RetainedRow}
    {dropped before : List (κ × RetainedRow)}
    (henforced : Enforced policy updated next evicted dropped) (hfresh : fresh ∈ next.completed)
    (hperm : updated.completed.Perm (fresh :: before)) :
    ∃ order : List (κ × RetainedRow), order.Perm before ∧
      order.Pairwise (fun first second => first.2.lastUsed ≤ second.2.lastUsed) ∧
      evicted <+: order.map Prod.fst := by
  obtain ⟨front, back, hkept⟩ := List.append_of_mem hfresh
  have hrest : next.completed.Perm (fresh :: (front ++ back)) := by
    rw [hkept]
    exact List.perm_middle
  let sorted := (front ++ back).mergeSort fun first second =>
    decide (first.2.lastUsed ≤ second.2.lastUsed)
  have hsorted : sorted.Perm (front ++ back) := List.mergeSort_perm _ _
  have hpairwise : sorted.Pairwise fun first second => first.2.lastUsed ≤ second.2.lastUsed := by
    have hdecided : sorted.Pairwise fun first second =>
        decide (first.2.lastUsed ≤ second.2.lastUsed) = true := by
      refine List.pairwise_mergeSort ?_ ?_ _
      · intro first second third hfirst hsecond
        rw [decide_eq_true_eq] at hfirst hsecond ⊢
        exact hfirst.trans hsecond
      · intro first second
        rw [Bool.or_eq_true, decide_eq_true_eq, decide_eq_true_eq]
        exact le_total _ _
    refine hdecided.imp ?_
    intro first second hle
    exact decide_eq_true_eq.mp hle
  refine ⟨dropped ++ sorted, ?_, ?_, ?_⟩
  · have hall : (fresh :: (dropped ++ sorted)).Perm (fresh :: before) := by
      calc (fresh :: (dropped ++ sorted)).Perm (dropped ++ fresh :: sorted) :=
            List.perm_middle.symm
        _ |>.Perm (dropped ++ fresh :: (front ++ back)) := (hsorted.cons fresh).append_left dropped
        _ |>.Perm (dropped ++ next.completed) := hrest.symm.append_left dropped
        _ |>.Perm updated.completed := henforced.split.symm
        _ |>.Perm (fresh :: before) := hperm
    exact hall.cons_inv
  · refine List.pairwise_append.mpr ⟨henforced.sorted, hpairwise, ?_⟩
    intro lost hlost kept hmem
    refine henforced.older lost hlost kept ?_
    exact hrest.mem_iff.mpr (List.mem_cons_of_mem _ (hsorted.mem_iff.mp hmem))
  · rw [List.map_append, henforced.keys]
    exact List.prefix_append _ _

/-- A completion keeps its own record and the bounds, and it never fails to evict. -/
theorem complete_retained {lease : Lease κ} {result : Bytes} {nowMillis : ℤ} {stale : String}
    (hrows : records.rows.rows.length < wordCount)
    (hused : ∀ key row, records.rows.find key = some row → row.lastUsed ≤ records.sequence)
    (hone : 1 ≤ policy.maxEntries) (hbytes : (policy.maxBytes : ℤ) ≤ i64Max)
    (hsize : result.length ≤ policy.maxBytes) :
    (∃ error, records.complete lease result nowMillis policy stale = .error error ∧
      error ≠ .database "durable retention cleanup could not evict a record") ∨
    ∃ evicted next, records.complete lease result nowMillis policy stale = .ok (evicted, next) ∧
      Retained policy lease.key result records.rows next.rows evicted := by
  rcases @complete_cases κ _ records policy lease result nowMillis stale with
    hfailed | ⟨old, change, hfind, howns, hwrites, hloop⟩
  · exact Or.inl hfailed
  · simp only [] at hloop
    rw [hloop]
    have hperm := completed_update hfind howns (hwrites.status old)
    have hnewest := newest_of_completes hused hsize hwrites hperm
    have hcountable : Countable policy
        (⟨records.sequence + 1, records.rows.update lease.owns change⟩ : Records κ).completed := by
      refine ⟨?_, hone, hbytes⟩
      have hfilter := List.length_filter_le (fun entry => entry.2.status == .completed)
        (records.rows.update lease.owns change).rows
      have hlength : (records.rows.update lease.owns change).rows.length =
          records.rows.rows.length := by
        unfold Table.update
        rw [List.length_map]
      exact Nat.lt_of_le_of_lt hfilter (hlength ▸ hrows)
    rcases enforceLimits_enforced le_rfl hcountable hnewest with
      hoverflow | ⟨evicted, next, dropped, hok, henforced, hfresh⟩
    · exact Or.inl ⟨_, hoverflow, by decide⟩
    · right
      obtain ⟨hkept, hgone⟩ := enforceLimits_eq_ok hok
      refine ⟨evicted, next, hok, henforced.within.entries, henforced.within.bytes,
        ⟨change old, (Table.mem_select_iff.mp hfresh).1, hwrites.status old, hwrites.result old⟩,
        oldest_of_enforced henforced hfresh hperm, fun other hmem => (hgone other hmem).1, ?_⟩
      intro other hne hmem
      rw [hkept other hmem, Table.find_update]
      cases hother : records.rows.find other with
      | none => rfl
      | some found =>
        have hnot : ¬ lease.owns other found = true :=
          fun howned => hne (lease.owns_key other found howned)
        rw [Option.map_some, if_neg hnot]

end Records

/-! ## The two tables -/

theorem RetentionPolicy.bounds_of_validate {policy : RetentionPolicy} {limits : StoreLimits}
    (hvalid : policy.validate limits = .ok ()) :
    1 ≤ policy.maxEntries ∧ (policy.maxBytes : ℤ) ≤ i64Max := by
  unfold validate StoreLimits.validate within at hvalid
  simp only [Result.bind_eq_ok, Result.ensure_eq_ok, Bool.and_eq_true, decide_eq_true_eq] at hvalid
  obtain ⟨_, hlimits, hpolicy⟩ := hvalid
  have hbytes : limits.maxReplayBytes ≤ maxReplayBytes := hlimits.2.2
  have hpolicyBytes : policy.maxBytes ≤ limits.maxReplayBytes := hpolicy.1.1.2.2
  unfold maxReplayBytes at hbytes
  unfold i64Max
  refine ⟨hpolicy.1.1.1.1, ?_⟩
  omega

theorem RetentionPolicy.validate_eq_error {policy : RetentionPolicy} {limits : StoreLimits}
    {error : StateError} (hinvalid : policy.validate limits = .error error) :
    ∃ text, error = .limit text := by
  unfold validate StoreLimits.validate at hinvalid
  rw [Result.bind_eq_error] at hinvalid
  rcases hinvalid with hlimits | ⟨_, -, hpolicy⟩
  · exact ⟨_, (Result.ensure_eq_error.mp hlimits).2.symm⟩
  · exact ⟨_, (Result.ensure_eq_error.mp hpolicy).2.symm⟩

/-- Both calls: the policy is checked, then the size of the result, then the record is
completed and the table is stored. -/
theorem completion_retained {κ : Type} [DecidableEq κ] {records : Records κ}
    {policy : RetentionPolicy} {limits : StoreLimits} {lease : Lease κ} {result : Bytes}
    {nowMillis : ℤ} {stale text : String} {small : Bool} {stored : Records κ → Store}
    (hrows : records.rows.rows.length < wordCount)
    (hused : ∀ key row, records.rows.find key = some row → row.lastUsed ≤ records.sequence)
    (hsmall : small = true → result.length ≤ policy.maxBytes)
    {call : Except StateError (List κ × Store)}
    (hcall : call = do
      policy.validate limits
      Result.ensure small (.limit text)
      let (evicted, records) ← records.complete lease result nowMillis policy stale
      pure (evicted, stored records)) :
    call ≠ .error (.database "durable retention cleanup could not evict a record") ∧
      ∀ evicted store, call = .ok (evicted, store) → ∃ next, store = stored next ∧
        Records.Retained policy lease.key result records.rows next.rows evicted := by
  cases hvalid : policy.validate limits with
  | error error =>
    obtain ⟨cause, hcause⟩ := RetentionPolicy.validate_eq_error hvalid
    rw [hvalid, hcause] at hcall
    subst hcall
    exact ⟨nofun, nofun⟩
  | ok valid =>
    obtain ⟨hone, hbytes⟩ := RetentionPolicy.bounds_of_validate hvalid
    rw [hvalid] at hcall
    cases hsize : small with
    | false =>
      rw [hsize] at hcall
      subst hcall
      exact ⟨nofun, nofun⟩
    | true =>
      rw [hsize] at hcall
      rcases @Records.complete_retained _ _ records policy lease result nowMillis stale hrows hused
        hone hbytes (hsmall hsize) with ⟨error, hfailed, hne⟩ | ⟨evicted, next, hok, hretained⟩
      · rw [hfailed] at hcall
        subst hcall
        constructor
        · intro heq
          cases heq
          exact hne rfl
        · intro _ _ heq
          cases heq
      · rw [hok] at hcall
        subst hcall
        constructor
        · intro heq
          cases heq
        · intro _ _ heq
          cases heq
          exact ⟨next, rfl, hretained⟩

/-- A completion leaves the bounds of a valid policy, its own record included, and evicts
a prefix of the others in the order of last use; its loop always ends. -/
theorem retention_keeps_newest :
    (∀ (store : Store) (lease : Lease ReplayKey) (result : Bytes) (nowMillis : ℤ)
        (policy : RetentionPolicy), store.replay.rows.length < wordCount →
      (∀ key row, store.replay.find key = some row → row.lastUsed ≤ store.sequence) →
      store.completeReplay lease result nowMillis policy ≠
          .error (.database "durable retention cleanup could not evict a record") ∧
        ∀ evicted next, store.completeReplay lease result nowMillis policy = .ok (evicted, next) →
          Records.Retained policy lease.key result store.replay next.replay evicted) ∧
    (∀ (store : Store) (lease : Lease IdempotencyKey) (response : Bytes) (nowMillis : ℤ)
        (policy : RetentionPolicy), store.idempotency.rows.length < wordCount →
      (∀ key row, store.idempotency.find key = some row → row.lastUsed ≤ store.sequence) →
      store.completeIdempotency lease response nowMillis policy ≠
          .error (.database "durable retention cleanup could not evict a record") ∧
        ∀ evicted next,
          store.completeIdempotency lease response nowMillis policy = .ok (evicted, next) →
          Records.Retained policy lease.key response store.idempotency next.idempotency
            evicted) := by
  constructor
  · intro store lease result nowMillis policy hrows hused
    have hsmall : (result.length ≤ maxReplayResultBytes && result.length ≤ policy.maxBytes) = true →
        result.length ≤ policy.maxBytes := by
      simp
    obtain ⟨hnever, hretained⟩ := @completion_retained _ _ store.replayRecords policy
      store.limits lease result nowMillis _ _ _ store.setReplayRecords hrows hused hsmall
      (store.completeReplay lease result nowMillis policy) rfl
    refine ⟨hnever, ?_⟩
    intro evicted next hok
    obtain ⟨records, hnext, hkept⟩ := hretained evicted next hok
    rw [hnext]
    exact hkept
  · intro store lease response nowMillis policy hrows hused
    have hsmall : decide (response.length ≤ policy.maxBytes) = true →
        response.length ≤ policy.maxBytes := by
      simp
    obtain ⟨hnever, hretained⟩ := @completion_retained _ _ store.idempotencyRecords policy
      store.limits lease response nowMillis _ _ _ store.setIdempotencyRecords hrows hused hsmall
      (store.completeIdempotency lease response nowMillis policy) rfl
    refine ⟨hnever, ?_⟩
    intro evicted next hok
    obtain ⟨records, hnext, hkept⟩ := hretained evicted next hok
    rw [hnext]
    exact hkept

/-- One completed record, and the lease of another one. -/
def sampleHeldStore : Store :=
  run (Store.open sampleLimits)
    (sampleRetentionCalls ++
      [.idempotencyDecision (List.replicate 32 0) "order-8" (List.replicate 32 1)
        (List.replicate 16 4) 260 sampleRetentionPolicy])

def sampleHeldLease : Lease IdempotencyKey :=
  { key := (List.replicate 32 0, "order-8")
    digest := List.replicate 32 1
    owner := List.replicate 16 4 }

/-- A policy with room for one record evicts the other one. -/
theorem retention_keeps_newest_sample :
    ∃ next, sampleHeldStore.completeIdempotency sampleHeldLease [7, 7] 270
        { sampleRetentionPolicy with maxEntries := 1 } = .ok ([sampleIdempotencyKey], next) ∧
      Records.Retained { sampleRetentionPolicy with maxEntries := 1 } sampleHeldLease.key [7, 7]
        sampleHeldStore.idempotency next.idempotency [sampleIdempotencyKey] := by
  have hused : ∀ key row, sampleHeldStore.idempotency.find key = some row →
      row.lastUsed ≤ sampleHeldStore.sequence := by
    intro key row hfind
    have hall : ∀ entry ∈ sampleHeldStore.idempotency.rows,
        entry.2.lastUsed ≤ sampleHeldStore.sequence := by
      decide +kernel
    exact hall (key, row) (Table.mem_rows_iff.mpr hfind)
  obtain ⟨-, hretained⟩ := retention_keeps_newest.2 sampleHeldStore sampleHeldLease [7, 7] 270
    { sampleRetentionPolicy with maxEntries := 1 } (by decide +kernel) hused
  have hevicted : ((sampleHeldStore.completeIdempotency sampleHeldLease [7, 7] 270
      { sampleRetentionPolicy with maxEntries := 1 }).toOption.map Prod.fst) =
        some [sampleIdempotencyKey] := by
    decide +kernel
  cases hcall : sampleHeldStore.completeIdempotency sampleHeldLease [7, 7] 270
      { sampleRetentionPolicy with maxEntries := 1 } with
  | error error =>
    rw [hcall] at hevicted
    cases hevicted
  | ok outcome =>
    obtain ⟨evicted, next⟩ := outcome
    rw [hcall] at hevicted
    simp only [Except.toOption, Option.map_some, Option.some.injEq] at hevicted
    rw [hevicted] at hcall ⊢
    exact ⟨next, rfl, hretained _ next hcall⟩

end Krit.Durable
