import Krit.DeadLetters
import Krit.Lib.Totals

/-!
# The bounds of buckets and queues

Every bucket and every queue has one policy for the whole life of a store.  Objects and
jobs are counted and added up when a mutation is applied, dead letters when one is
added; a reservation or a failure only takes jobs away or rewrites their deliveries.
-/

namespace Krit.Durable

open Machine Std

/-- The policies that every caller uses. -/
structure Policies where
  queues : String → QueuePolicy
  buckets : String → BucketPolicy

/-- A call uses the policies of the store; a plan may leave queues and buckets out. -/
def Call.Under (policies : Policies) : Call → Prop
  | .commitPlan plan =>
      (∀ queue policy, plan.queues[queue]? = some policy → policy = policies.queues queue) ∧
        ∀ bucket policy, plan.buckets[bucket]? = some policy → policy = policies.buckets bucket
  | .reserveJob queue policy _ _ => policy = policies.queues queue
  | .failJob lease _ policy _ => policy = policies.queues lease.queue
  | _ => True

/-! ## The bounds -/

abbrev inBucket (bucket : String) (key : String × String) (_ : ObjectRow) : Bool :=
  key.1 == bucket

abbrev ofQueue (queue : String) (_ : Identity) (row : JobRow) : Bool := row.queue == queue

structure ObjectsWithin (buckets : String → BucketPolicy)
    (objects : Table (String × String) ObjectRow) : Prop where
  measured : ∀ key row, objects.find key = some row → row.sizeBytes = (row.value.length : ℤ)
  count : ∀ bucket, (objects.sizes (inBucket bucket) ObjectRow.sizeBytes).length ≤
    (buckets bucket).maxObjects
  bytes : ∀ bucket, (objects.sizes (inBucket bucket) ObjectRow.sizeBytes).sum ≤
    (buckets bucket).maxBucketBytes

structure JobsWithin (queues : String → QueuePolicy) (jobs : Table Identity JobRow) : Prop where
  measured : ∀ id row, jobs.find id = some row → row.sizeBytes = (row.body.length : ℤ)
  count : ∀ queue, (jobs.sizes (ofQueue queue) JobRow.sizeBytes).length ≤ (queues queue).maxDepth
  bytes : ∀ queue, (jobs.sizes (ofQueue queue) JobRow.sizeBytes).sum ≤ (queues queue).maxQueueBytes

structure LettersWithin (queues : String → QueuePolicy) (letters : Table Identity DeadRow) :
    Prop where
  measured : ∀ id row, letters.find id = some row → row.sizeBytes = (row.body.length : ℤ)
  count : ∀ queue, (letters.select (inQueue queue)).length ≤ (queues queue).deadLetterMaxEntries

/-- A store within the bounds of its policies, whose recorded sizes are exact. -/
structure StoreWithin (policies : Policies) (store : Store) : Prop where
  objects : ObjectsWithin policies.buckets store.objects
  jobs : JobsWithin policies.queues store.queueJobs
  letters : LettersWithin policies.queues store.queueDead

theorem StoreWithin.open (policies : Policies) (limits : StoreLimits) :
    StoreWithin policies (Store.open limits) where
  objects := ⟨nofun, fun _ => Nat.zero_le _, fun _ => Int.natCast_nonneg _⟩
  jobs := ⟨nofun, fun _ => Nat.zero_le _, fun _ => Int.natCast_nonneg _⟩
  letters := ⟨nofun, fun _ => Nat.zero_le _⟩

/-! ## Objects -/

section Objects

variable {buckets : String → BucketPolicy} {before after : Table (String × String) ObjectRow}

theorem ObjectsWithin.sizes_nonneg (hwithin : ObjectsWithin buckets before) (bucket : String) :
    ∀ size ∈ before.sizes (inBucket bucket) ObjectRow.sizeBytes, 0 ≤ size := by
  intro size hsize
  obtain ⟨key, row, hfind, -, hrow⟩ := Table.mem_sizes_iff.mp hsize
  have hmeasured := hwithin.measured key row hfind
  omega

theorem ObjectsWithin.of_find (hwithin : ObjectsWithin buckets before)
    (hfrom : ∀ key row, after.find key = some row → before.find key = some row) :
    ObjectsWithin buckets after := by
  have hsubperm : ∀ bucket, (after.sizes (inBucket bucket) ObjectRow.sizeBytes).Subperm
      (before.sizes (inBucket bucket) ObjectRow.sizeBytes) := by
    intro bucket
    refine Table.sizes_subperm ?_
    intro key row hfind hin
    exact ⟨row, hfrom key row hfind, hin, rfl⟩
  refine ⟨?_, ?_, ?_⟩
  · intro key row hfind
    exact hwithin.measured key row (hfrom key row hfind)
  · intro bucket
    exact (hsubperm bucket).length_le.trans (hwithin.count bucket)
  · intro bucket
    exact (Table.sum_le_sum_of_subperm (hsubperm bucket) (hwithin.sizes_nonneg bucket)).trans
      (hwithin.bytes bucket)

/-- An object that is put, with the room that its bucket had for it. -/
theorem ObjectsWithin.upsert (hwithin : ObjectsWithin buckets before) {bucket key : String}
    {row : ObjectRow} (hmeasured : row.sizeBytes = (row.value.length : ℤ))
    (hcount : before.find (bucket, key) = none →
      (before.sizes (inBucket bucket) ObjectRow.sizeBytes).length < (buckets bucket).maxObjects)
    (hbytes : (before.sizes (inBucket bucket) ObjectRow.sizeBytes).sum -
        ((before.find (bucket, key)).map ObjectRow.sizeBytes).getD 0 + row.value.length ≤
      (buckets bucket).maxBucketBytes) :
    ObjectsWithin buckets (before.upsert (bucket, key) row fun _ => row) := by
  have hfinds := Table.find_upsert_const before (bucket, key) row
  have hmine : inBucket bucket (bucket, key) row = true := beq_self_eq_true bucket
  have hperm := Table.sizes_upsert_perm before ObjectRow.sizeBytes hmine
  have hothers : ∀ other, other ≠ bucket →
      ((before.upsert (bucket, key) row fun _ => row).sizes (inBucket other)
        ObjectRow.sizeBytes).Subperm (before.sizes (inBucket other) ObjectRow.sizeBytes) := by
    intro other hother
    refine Table.sizes_subperm ?_
    intro found object hfind hin
    have hne : found ≠ (bucket, key) := by
      intro hsame
      rw [hsame] at hin
      exact hother (beq_iff_eq.mp hin).symm
    rw [hfinds, Function.update_of_ne hne] at hfind
    exact ⟨object, hfind, hin, rfl⟩
  -- The sizes of the bucket without the object that is put.
  have hlength := hperm.length_eq
  have hsum := hperm.sum_eq
  rw [List.length_cons] at hlength
  rw [List.sum_cons, hmeasured] at hsum
  refine ⟨?_, ?_, ?_⟩
  · intro found object hfind
    by_cases hsame : found = (bucket, key)
    · rw [hfinds, hsame, Function.update_self, Option.some.injEq] at hfind
      rw [← hfind]
      exact hmeasured
    · rw [hfinds, Function.update_of_ne hsame] at hfind
      exact hwithin.measured found object hfind
  · intro other
    by_cases hother : other = bucket
    · subst hother
      cases hfind : before.find (other, key) with
      | none =>
        rw [Table.sizes_delete_of_none hfind] at hlength
        have hroom := hcount hfind
        omega
      | some old =>
        have hin : inBucket other (other, key) old = true := beq_self_eq_true other
        have hold := (Table.sizes_perm_cons ObjectRow.sizeBytes hfind hin).length_eq
        rw [List.length_cons] at hold
        have hbound := hwithin.count other
        omega
    · exact (hothers other hother).length_le.trans (hwithin.count other)
  · intro other
    by_cases hother : other = bucket
    · subst hother
      cases hfind : before.find (other, key) with
      | none =>
        rw [Table.sizes_delete_of_none hfind] at hsum
        rw [hfind] at hbytes
        simp only [Option.map_none, Option.getD_none] at hbytes
        omega
      | some old =>
        have hin : inBucket other (other, key) old = true := beq_self_eq_true other
        have hold := (Table.sizes_perm_cons ObjectRow.sizeBytes hfind hin).sum_eq
        rw [List.sum_cons] at hold
        rw [hfind] at hbytes
        simp only [Option.map_some, Option.getD_some] at hbytes
        omega
    · exact (Table.sum_le_sum_of_subperm (hothers other hother) (hwithin.sizes_nonneg other)).trans
        (hwithin.bytes other)

end Objects

/-! ## Jobs -/

section Jobs

variable {queues : String → QueuePolicy} {before after : Table Identity JobRow}

/-- Every job was there before, with its queue and its body. -/
def JobsFrom (before after : Table Identity JobRow) : Prop :=
  ∀ id row, after.find id = some row → ∃ old, before.find id = some old ∧
    old.queue = row.queue ∧ old.body = row.body ∧ old.sizeBytes = row.sizeBytes

theorem JobsFrom.delete (jobs : Table Identity JobRow) (condition : Identity → JobRow → Bool) :
    JobsFrom jobs (jobs.delete condition) := by
  intro id row hfind
  rw [Table.find_delete, Option.filter_eq_some_iff] at hfind
  exact ⟨row, hfind.1, rfl, rfl, rfl⟩

/-- Rewriting a delivery keeps the job. -/
theorem JobsFrom.update (jobs : Table Identity JobRow) (condition : Identity → JobRow → Bool)
    {change : JobRow → JobRow} (hqueue : ∀ row, (change row).queue = row.queue)
    (hbody : ∀ row, (change row).body = row.body)
    (hsize : ∀ row, (change row).sizeBytes = row.sizeBytes) :
    JobsFrom jobs (jobs.update condition change) := by
  intro id row hfind
  rw [Table.find_update, Option.map_eq_some_iff] at hfind
  obtain ⟨old, hold, hrow⟩ := hfind
  refine ⟨old, hold, ?_⟩
  rw [← hrow]
  by_cases hcondition : condition id old = true
  · rw [if_pos hcondition]
    exact ⟨(hqueue old).symm, (hbody old).symm, (hsize old).symm⟩
  · rw [if_neg hcondition]
    exact ⟨rfl, rfl, rfl⟩

theorem JobsWithin.sizes_nonneg (hwithin : JobsWithin queues before) (queue : String) :
    ∀ size ∈ before.sizes (ofQueue queue) JobRow.sizeBytes, 0 ≤ size := by
  intro size hsize
  obtain ⟨id, row, hfind, -, hrow⟩ := Table.mem_sizes_iff.mp hsize
  have hmeasured := hwithin.measured id row hfind
  omega

theorem JobsWithin.of_from (hwithin : JobsWithin queues before) (hfrom : JobsFrom before after) :
    JobsWithin queues after := by
  have hsubperm : ∀ queue, (after.sizes (ofQueue queue) JobRow.sizeBytes).Subperm
      (before.sizes (ofQueue queue) JobRow.sizeBytes) := by
    intro queue
    refine Table.sizes_subperm ?_
    intro id row hfind hin
    obtain ⟨old, hold, hqueue, -, hsize⟩ := hfrom id row hfind
    refine ⟨old, hold, ?_, hsize⟩
    unfold ofQueue at hin ⊢
    rw [hqueue]
    exact hin
  refine ⟨?_, ?_, ?_⟩
  · intro id row hfind
    obtain ⟨old, hold, -, hbody, hsize⟩ := hfrom id row hfind
    rw [← hsize, ← hbody]
    exact hwithin.measured id old hold
  · intro queue
    exact (hsubperm queue).length_le.trans (hwithin.count queue)
  · intro queue
    exact (Table.sum_le_sum_of_subperm (hsubperm queue) (hwithin.sizes_nonneg queue)).trans
      (hwithin.bytes queue)

/-- A job that is published, with the room that its queue had for it. -/
theorem JobsWithin.insert (hwithin : JobsWithin queues before) {id : Identity} {row : JobRow}
    (habsent : before.find id = none) (hmeasured : row.sizeBytes = (row.body.length : ℤ))
    (hcount : (before.sizes (ofQueue row.queue) JobRow.sizeBytes).length <
      (queues row.queue).maxDepth)
    (hbytes : (before.sizes (ofQueue row.queue) JobRow.sizeBytes).sum + row.body.length ≤
      (queues row.queue).maxQueueBytes) :
    JobsWithin queues (before.insert id row) := by
  have hfinds : ∀ other found, (before.insert id row).find other = some found →
      (other = id ∧ found = row) ∨ (other ≠ id ∧ before.find other = some found) := by
    intro other found hfind
    by_cases hsame : other = id
    · rw [hsame, Table.find_insert_self habsent, Option.some.injEq] at hfind
      exact Or.inl ⟨hsame, hfind.symm⟩
    · rw [Table.find_insert_of_ne (Ne.symm hsame)] at hfind
      exact Or.inr ⟨hsame, hfind⟩
  have hothers : ∀ queue, queue ≠ row.queue →
      ((before.insert id row).sizes (ofQueue queue) JobRow.sizeBytes).Subperm
        (before.sizes (ofQueue queue) JobRow.sizeBytes) := by
    intro queue hqueue
    refine Table.sizes_subperm ?_
    intro other found hfind hin
    rcases hfinds other found hfind with ⟨-, hrow⟩ | ⟨-, hold⟩
    · rw [hrow] at hin
      exact absurd (beq_iff_eq.mp hin).symm hqueue
    · exact ⟨found, hold, hin, rfl⟩
  have hmine : (before.insert id row).sizes (ofQueue row.queue) JobRow.sizeBytes =
      before.sizes (ofQueue row.queue) JobRow.sizeBytes ++ [row.sizeBytes] :=
    Table.sizes_insert_of_none habsent (beq_self_eq_true row.queue)
  refine ⟨?_, ?_, ?_⟩
  · intro other found hfind
    rcases hfinds other found hfind with ⟨-, hrow⟩ | ⟨-, hold⟩
    · rw [hrow]
      exact hmeasured
    · exact hwithin.measured other found hold
  · intro queue
    by_cases hqueue : queue = row.queue
    · rw [hqueue, hmine, List.length_append, List.length_singleton]
      exact hcount
    · exact (hothers queue hqueue).length_le.trans (hwithin.count queue)
  · intro queue
    by_cases hqueue : queue = row.queue
    · rw [hqueue, hmine, List.sum_append, List.sum_singleton, hmeasured]
      exact hbytes
    · exact (Table.sum_le_sum_of_subperm (hothers queue hqueue)
        (hwithin.sizes_nonneg queue)).trans (hwithin.bytes queue)

end Jobs

/-! ## Dead letters -/

section Letters

variable {queues : String → QueuePolicy}

/-- A change of the dead letters of one queue: every letter was there before, with its
body, or is a new one of that queue, and the bound of the queue holds afterwards. -/
structure LettersEffect (queue : String) (policy : QueuePolicy)
    (before after : Table Identity DeadRow) : Prop where
  origin : ∀ id row, after.find id = some row →
    (∃ old, before.find id = some old ∧ old.queue = row.queue ∧ old.body = row.body ∧
      old.sizeBytes = row.sizeBytes) ∨
    (row.queue = queue ∧ row.sizeBytes = (row.body.length : ℤ))
  count : (after.select (inQueue queue)).length ≤ policy.deadLetterMaxEntries

theorem LettersWithin.of_effect {queue : String} {before after : Table Identity DeadRow}
    (hwithin : LettersWithin queues before)
    (heffect : LettersEffect queue (queues queue) before after) : LettersWithin queues after := by
  refine ⟨?_, ?_⟩
  · intro id row hfind
    rcases heffect.origin id row hfind with ⟨old, hold, -, hbody, hsize⟩ | ⟨-, hmeasured⟩
    · rw [← hsize, ← hbody]
      exact hwithin.measured id old hold
    · exact hmeasured
  · intro other
    by_cases hother : other = queue
    · rw [hother]
      exact heffect.count
    · have hsubperm : (after.sizes (inQueue other) DeadRow.sizeBytes).Subperm
          (before.sizes (inQueue other) DeadRow.sizeBytes) := by
        refine Table.sizes_subperm ?_
        intro id row hfind hin
        rcases heffect.origin id row hfind with ⟨old, hold, hqueue, -, hsize⟩ | ⟨hqueue, -⟩
        · refine ⟨old, hold, ?_, hsize⟩
          unfold inQueue at hin ⊢
          rw [hqueue]
          exact hin
        · unfold inQueue at hin
          rw [hqueue] at hin
          exact absurd (beq_iff_eq.mp hin).symm hother
      have hle := hsubperm.length_le
      unfold Table.sizes at hle
      rw [List.length_map, List.length_map] at hle
      exact hle.trans (hwithin.count other)

namespace Store

variable {store next : Store} {queue : String} {policy : QueuePolicy} {nowMillis : ℤ}

theorem enforceDeadLetterBounds_letters {before : Table Identity DeadRow}
    (horigin : ∀ id row, store.queueDead.find id = some row →
      (∃ old, before.find id = some old ∧ old.queue = row.queue ∧ old.body = row.body ∧
        old.sizeBytes = row.sizeBytes) ∨
      (row.queue = queue ∧ row.sizeBytes = (row.body.length : ℤ)))
    (henforce : store.enforceDeadLetterBounds queue policy = .ok next) :
    LettersEffect queue policy before next.queueDead := by
  refine ⟨?_, deadCount_enforce henforce⟩
  intro id row hfind
  rw [enforceDeadLetterBounds_spec henforce] at hfind
  exact horigin id row (Table.find_of_keepNewest hfind)

theorem deadLetter_letters {id : Identity} {row : JobRow} {reason : String}
    (hmeasured : row.sizeBytes = (row.body.length : ℤ))
    (hmove : store.deadLetter id queue row reason nowMillis policy = .ok next) :
    LettersEffect queue policy store.queueDead next.queueDead := by
  refine enforceDeadLetterBounds_letters ?_ hmove
  intro other letter hfind
  by_cases hsame : id = other
  · subst hsame
    rw [Table.find_upsert_self] at hfind
    cases hold : store.queueDead.find id with
    | none =>
      rw [hold, Option.elim_none, Option.some.injEq] at hfind
      rw [← hfind]
      exact Or.inr ⟨rfl, hmeasured⟩
    | some old =>
      rw [hold, Option.elim_some, Option.some.injEq] at hfind
      rw [← hfind]
      exact Or.inl ⟨old, rfl, rfl, rfl, rfl⟩
  · rw [Table.find_upsert_of_ne hsame] at hfind
    exact Or.inl ⟨letter, hfind, rfl, rfl, rfl⟩

theorem cleanupDeadLetters_letters
    (hcleanup : store.cleanupDeadLetters queue policy nowMillis = .ok next) :
    LettersEffect queue policy store.queueDead next.queueDead := by
  unfold cleanupDeadLetters at hcleanup
  simp only [Result.bind_eq_ok] at hcleanup
  obtain ⟨ttl, -, horizon, -, henforce⟩ := hcleanup
  refine enforceDeadLetterBounds_letters ?_ henforce
  intro id row hfind
  rw [Table.find_delete, Option.filter_eq_some_iff] at hfind
  exact Or.inl ⟨row, hfind.1, rfl, rfl, rfl⟩

end Store

end Letters

/-! ## Mutations -/

/-- What a mutation does where no bound is checked. -/
def Mutation.effect (nowMillis : ℤ) (store : Store) : Mutation → Store
  | .put key value => { store with kv := store.kv.upsert key value fun _ => value }
  | .delete key => { store with kv := store.kv.delete fun other _ => other == key }
  | .checkpointPut name value =>
      { store with checkpoints := store.checkpoints.upsert name value fun _ => value }
  | .objectPut bucket key value =>
      let row : ObjectRow := { value, sizeBytes := value.length, updatedAt := nowMillis }
      { store with objects := store.objects.upsert (bucket, key) row fun _ => row }
  | .objectDelete bucket key =>
      { store with objects := store.objects.delete fun other _ => other == (bucket, key) }
  | .queuePublish queue id body =>
      { store with
        sequence := store.sequence + 1
        queueJobs := store.queueJobs.insert id
          { queue
            sequence := store.sequence + 1
            body
            attempts := 0
            visibleAt := nowMillis
            leaseUntil := none
            owner := none
            sizeBytes := body.length
            enqueuedAt := nowMillis } }

section Mutations

variable {policies : Policies} {store next : Store} {nowMillis : ℤ}

theorem Store.putObject_within (hwithin : StoreWithin policies store) {bucket key : String}
    {value : Bytes}
    (hput : store.putObject (policies.buckets bucket) bucket key value nowMillis = .ok next) :
    next = Mutation.effect nowMillis store (.objectPut bucket key value) ∧
      StoreWithin policies next := by
  unfold putObject at hput
  simp only [Result.bind_eq_ok, Result.ensure_eq_ok, Result.ofOption_eq_ok, Result.pure_eq_ok,
    Bool.or_eq_true, decide_eq_true_eq] at hput
  obtain ⟨-, -, ⟨count, bytes⟩, hcounted, -, hroom, retained, hretained, -, hfits, sizeBytes, hsize,
    hnext⟩ := hput
  obtain ⟨hcount, hbytes, -⟩ := countAndSum_eq_ok hcounted
  have hexact := sizeColumn_eq_ok hsize
  subst hexact
  subst hnext
  refine ⟨rfl, hwithin.objects.upsert rfl ?_ ?_, hwithin.jobs, hwithin.letters⟩
  · intro habsent
    rw [habsent, hcount] at hroom
    unfold usizeOf at hroom
    simp only [Option.map_none, Option.isSome_none, Bool.false_eq_true, false_or] at hroom
    change (store.objectSizes bucket).length < _
    omega
  · have hsum : 0 ≤ bytes := by
      rw [hbytes]
      exact List.sum_nonneg (hwithin.objects.sizes_nonneg bucket)
    have hprevious : 0 ≤ ((store.objects.find (bucket, key)).map ObjectRow.sizeBytes).getD 0 := by
      cases hfind : store.objects.find (bucket, key) with
      | none => exact Int.le_refl 0
      | some old =>
        have hmeasured := hwithin.objects.measured _ old hfind
        rw [Option.map_some, Option.getD_some, hmeasured]
        omega
    split at hretained
    · rename_i hle
      have hadded := checkedAdd_eq_some hretained
      unfold usizeOf at hle hadded
      change (store.objectSizes bucket).sum - _ + (value.length : ℤ) ≤ _
      rw [← hbytes]
      omega
    · cases hretained

theorem Store.publish_within (hwithin : StoreWithin policies store) {queue : String}
    {id : Identity} {body : Bytes}
    (hpublish : store.publish (policies.queues queue) queue id body nowMillis = .ok next) :
    next = Mutation.effect nowMillis store (.queuePublish queue id body) ∧
      StoreWithin policies next := by
  unfold publish at hpublish
  simp only [Result.bind_eq_ok, Result.ensure_eq_ok, Result.pure_eq_ok, decide_eq_true_eq]
    at hpublish
  obtain ⟨-, -, ⟨count, bytes⟩, hcounted, -, hroom, -, hfits, ⟨sequence, sequenced⟩, hsequence,
    sizeBytes, hsize, -, habsent, hnext⟩ := hpublish
  obtain ⟨hcount, hbytes, -⟩ := countAndSum_eq_ok hcounted
  have hexact := sizeColumn_eq_ok hsize
  subst hexact
  have hcounter := nextSequence_spec hsequence
  rw [Option.isNone_iff_eq_none] at habsent
  obtain ⟨hnumber, hsequenced⟩ := hcounter
  subst hsequenced hnumber
  subst hnext
  have hsum : 0 ≤ bytes := by
    rw [hbytes]
    exact List.sum_nonneg (hwithin.jobs.sizes_nonneg queue)
  refine ⟨rfl, hwithin.objects, hwithin.jobs.insert habsent rfl ?_ ?_, hwithin.letters⟩
  · change (store.queueSizes queue).length < (policies.queues queue).maxDepth
    simp only [usizeOf] at hroom
    omega
  · change (store.queueSizes queue).sum + (body.length : ℤ) ≤ (policies.queues queue).maxQueueBytes
    simp only [] at hfits
    cases hadded : Machine.checkedAdd (usizeOf bytes) body.length with
    | none =>
      rw [hadded] at hfits
      cases hfits
    | some total =>
      rw [hadded, Option.any_some, decide_eq_true_eq] at hfits
      have hexact := checkedAdd_eq_some hadded
      unfold usizeOf at hexact
      rw [← hbytes]
      omega

/-- A mutation that is applied has its effect, and the store stays within the bounds. -/
theorem Store.applyMutation_within {queues : TreeMap String QueuePolicy}
    {buckets : TreeMap String BucketPolicy} (hwithin : StoreWithin policies store)
    (hqueues : ∀ queue policy, queues[queue]? = some policy → policy = policies.queues queue)
    (hbuckets : ∀ bucket policy, buckets[bucket]? = some policy → policy = policies.buckets bucket)
    {mutation : Mutation}
    (happly : applyMutation queues buckets nowMillis store mutation = .ok next) :
    next = mutation.effect nowMillis store ∧ StoreWithin policies next := by
  cases mutation with
  | put key value =>
    rw [applyMutation, Result.pure_eq_ok] at happly
    subst happly
    exact ⟨rfl, hwithin.objects, hwithin.jobs, hwithin.letters⟩
  | delete key =>
    rw [applyMutation, Result.pure_eq_ok] at happly
    subst happly
    exact ⟨rfl, hwithin.objects, hwithin.jobs, hwithin.letters⟩
  | checkpointPut name value =>
    rw [applyMutation, Result.pure_eq_ok] at happly
    subst happly
    exact ⟨rfl, hwithin.objects, hwithin.jobs, hwithin.letters⟩
  | objectPut bucket key value =>
    simp only [applyMutation, Result.bind_eq_ok, Result.ofOption_eq_ok] at happly
    obtain ⟨policy, hpolicy, hput⟩ := happly
    rw [hbuckets bucket policy hpolicy] at hput
    exact putObject_within hwithin hput
  | objectDelete bucket key =>
    simp only [applyMutation, Result.bind_eq_ok, Result.pure_eq_ok] at happly
    obtain ⟨-, -, hnext⟩ := happly
    subst hnext
    refine ⟨rfl, hwithin.objects.of_find ?_, hwithin.jobs, hwithin.letters⟩
    intro other row hfind
    rw [Table.find_delete, Option.filter_eq_some_iff] at hfind
    exact hfind.1
  | queuePublish queue id body =>
    simp only [applyMutation, Result.bind_eq_ok, Result.ofOption_eq_ok] at happly
    obtain ⟨policy, hpolicy, hpublish⟩ := happly
    rw [hqueues queue policy hpolicy] at hpublish
    exact publish_within hwithin hpublish

/-- Mutations that are applied keep the store within the bounds at every point. -/
theorem Store.applyMutations_within {queues : TreeMap String QueuePolicy}
    {buckets : TreeMap String BucketPolicy} (hwithin : StoreWithin policies store)
    (hqueues : ∀ queue policy, queues[queue]? = some policy → policy = policies.queues queue)
    (hbuckets : ∀ bucket policy, buckets[bucket]? = some policy → policy = policies.buckets bucket)
    {mutations : List Mutation}
    (happly : mutations.foldlM (applyMutation queues buckets nowMillis) store = .ok next) :
    StoreWithin policies next ∧ ∀ front back, mutations = front ++ back →
      StoreWithin policies (front.foldl (Mutation.effect nowMillis) store) := by
  induction mutations generalizing store with
  | nil =>
    rw [List.foldlM_nil, Result.pure_eq_ok] at happly
    subst happly
    refine ⟨hwithin, ?_⟩
    intro front back hsplit
    rw [(List.append_eq_nil_iff.mp hsplit.symm).1]
    exact hwithin
  | cons mutation rest ih =>
    rw [List.foldlM_cons, Result.bind_eq_ok] at happly
    obtain ⟨middle, hfirst, hrest⟩ := happly
    obtain ⟨heffect, hmiddle⟩ := applyMutation_within hwithin hqueues hbuckets hfirst
    obtain ⟨hnext, hpoints⟩ := ih hmiddle hrest
    refine ⟨hnext, ?_⟩
    intro front back hsplit
    cases front with
    | nil => exact hwithin
    | cons first front =>
      rw [List.cons_append, List.cons.injEq] at hsplit
      rw [List.foldl_cons, ← hsplit.1, ← heffect]
      exact hpoints front back hsplit.2

/-- A completion takes at most a job away. -/
theorem Store.complete_within (hwithin : StoreWithin policies store)
    {completion : Option Completion} (hcomplete : store.complete nowMillis completion = .ok next) :
    StoreWithin policies next := by
  cases completion with
  | none =>
    rw [complete, Result.pure_eq_ok] at hcomplete
    rw [← hcomplete]
    exact hwithin
  | some completion =>
    cases completion with
    | job lease =>
      simp only [complete, Result.bind_eq_ok, Result.pure_eq_ok] at hcomplete
      obtain ⟨-, -, hnext⟩ := hcomplete
      subst hnext
      exact ⟨hwithin.objects, hwithin.jobs.of_from (JobsFrom.delete _ _), hwithin.letters⟩
    | fire lease =>
      simp only [complete, Result.bind_eq_ok, Result.pure_eq_ok] at hcomplete
      obtain ⟨-, -, hnext⟩ := hcomplete
      subst hnext
      exact ⟨hwithin.objects, hwithin.jobs, hwithin.letters⟩

/-- A plan that is committed keeps the bounds, at every point of its mutations. -/
theorem Store.commitPlan_within (hwithin : StoreWithin policies store) {plan : CommitPlan}
    (hunder : (Call.commitPlan plan).Under policies) {revision : ℕ}
    (hcommit : store.commitPlan plan = .ok (revision, next)) :
    StoreWithin policies next ∧ ∀ front back, plan.mutations = front ++ back →
      StoreWithin policies (front.foldl (Mutation.effect plan.nowMillis) store) := by
  obtain ⟨-, applied, completed, happlied, hcompleted, hlast⟩ := commitPlan_eq_ok hcommit
  obtain ⟨happly, hpoints⟩ := applyMutations_within hwithin hunder.1 hunder.2 happlied
  have hcomplete := complete_within happly hcompleted
  refine ⟨?_, hpoints⟩
  rcases hlast with ⟨-, hadvance⟩ | ⟨-, -, hnext⟩
  · rw [(advance_eq_ok hadvance).2]
    exact ⟨hcomplete.objects, hcomplete.jobs, hcomplete.letters⟩
  · rw [hnext]
    exact hcomplete

end Mutations

/-! ## Reservations and failures -/

section Deliveries

variable {policies : Policies} {store next : Store} {queue : String} {owner : Identity}
  {nowMillis : ℤ}

/-- Moving a job to the dead letters of its queue. -/
theorem Store.deadLetter_within (hwithin : StoreWithin policies store) {id : Identity}
    {row : JobRow} {reason : String} (hfind : store.queueJobs.find id = some row)
    (hmove : store.deadLetter id queue row reason nowMillis (policies.queues queue) = .ok next) :
    StoreWithin policies next := by
  have hletters := deadLetter_letters (hwithin.jobs.measured id row hfind) hmove
  obtain ⟨queueDead, hnext⟩ := deadLetter_eq_ok hmove
  subst hnext
  exact ⟨hwithin.objects, hwithin.jobs.of_from (JobsFrom.delete _ _),
    hwithin.letters.of_effect hletters⟩

theorem Store.reserveJobScan_within {left : ℕ} (hwithin : StoreWithin policies store)
    {found : Option JobDelivery × List Identity}
    (hscan : reserveJobScan queue (policies.queues queue) owner nowMillis left store =
      .ok (found, next)) : StoreWithin policies next := by
  induction left generalizing store found with
  | zero =>
    rw [reserveJobScan, Result.pure_eq_ok, Prod.mk.injEq] at hscan
    rw [← hscan.2]
    exact hwithin
  | succ left ih =>
    obtain ⟨delivery, exhausted⟩ := found
    rcases reserveJobScan_cases hscan with ⟨-, -, hnext, -⟩ |
      ⟨before, id, row, rest, middle, hleft, hcandidate, -, hmove, hrest, -⟩ |
      ⟨id, row, leaseUntil, -, -, -, -, -, hnext⟩
    · rw [hnext]
      exact hwithin
    · have hsame : left = before := Nat.succ.inj hleft
      subst hsame
      exact ih (deadLetter_within hwithin (jobCandidate_eq_some hcandidate).1 hmove) hrest
    · subst hnext
      refine ⟨hwithin.objects, hwithin.jobs.of_from ?_, hwithin.letters⟩
      exact JobsFrom.update _ _ (fun _ => rfl) (fun _ => rfl) (fun _ => rfl)

theorem Store.reserveJob_within (hwithin : StoreWithin policies store)
    {found : Option JobDelivery × List Identity}
    (hreserve : store.reserveJob queue (policies.queues queue) owner nowMillis =
      .ok (found, next)) : StoreWithin policies next := by
  unfold reserveJob at hreserve
  simp only [Result.bind_eq_ok] at hreserve
  obtain ⟨_, -, _, -, _, -, cleaned, hcleanup, hscan⟩ := hreserve
  have hletters := cleanupDeadLetters_letters hcleanup
  obtain ⟨queueDead, hcleaned⟩ := cleanupDeadLetters_eq_ok hcleanup
  subst hcleaned
  refine reserveJobScan_within ?_ hscan
  exact ⟨hwithin.objects, hwithin.jobs, hwithin.letters.of_effect hletters⟩

theorem Store.failJob_within (hwithin : StoreWithin policies store) {lease : JobLease}
    {reason : String} {disposition : JobDisposition}
    (hfail : store.failJob lease reason (policies.queues lease.queue) nowMillis =
      .ok (disposition, next)) : StoreWithin policies next := by
  rcases failJob_eq_ok hfail with ⟨-, -, hnext⟩ | ⟨row, hfind, -, -, -, hmove⟩ |
    ⟨row, visibleAt, -, -, -, -, -, hnext⟩
  · rw [hnext]
    exact hwithin
  · exact deadLetter_within hwithin hfind hmove
  · subst hnext
    refine ⟨hwithin.objects, hwithin.jobs.of_from ?_, hwithin.letters⟩
    exact JobsFrom.update _ _ (fun _ => rfl) (fun _ => rfl) (fun _ => rfl)

end Deliveries

/-! ## Runs -/

theorem StoreWithin.answer {policies : Policies} {store : Store} {α : Type} {reply : α → Reply}
    {outcome : Except StateError (α × Store)} (hwithin : StoreWithin policies store)
    (haccepted : ∀ result next, outcome = .ok (result, next) → StoreWithin policies next) :
    StoreWithin policies (Durable.answer store reply outcome).2 := by
  cases houtcome : outcome with
  | error error => exact hwithin
  | ok accepted => exact haccepted accepted.1 accepted.2 houtcome

/-- What concerns schedules and records leaves objects, jobs and dead letters alone. -/
theorem StoreWithin.of_frame {policies : Policies} {store next : Store} {area : Area}
    (hwithin : StoreWithin policies store) (hframe : area.Frame store next)
    (houtcome : area ≠ .outcome) (hjobs : area ≠ .jobs) : StoreWithin policies next := by
  cases area with
  | outcome => exact absurd rfl houtcome
  | jobs => exact absurd rfl hjobs
  | schedules =>
    obtain ⟨_, _, hnext⟩ := hframe
    subst hnext
    exact ⟨hwithin.objects, hwithin.jobs, hwithin.letters⟩
  | replay =>
    obtain ⟨_, hnext⟩ := hframe
    subst hnext
    exact ⟨hwithin.objects, hwithin.jobs, hwithin.letters⟩
  | idempotency =>
    obtain ⟨_, hnext⟩ := hframe
    subst hnext
    exact ⟨hwithin.objects, hwithin.jobs, hwithin.letters⟩

theorem StoreWithin.step {policies : Policies} {store : Store}
    (hwithin : StoreWithin policies store)
    {call : Call} (hunder : call.Under policies) : StoreWithin policies (store.step call).2 := by
  have hframe := Store.step_frame store call
  cases call with
  | commitPlan plan =>
    refine hwithin.answer ?_
    intro revision next hcommit
    exact (Store.commitPlan_within hwithin hunder hcommit).1
  | reserveJob queue policy owner now =>
    have hpolicy : policy = policies.queues queue := hunder
    subst hpolicy
    exact hwithin.answer fun _ _ hreserve => Store.reserveJob_within hwithin hreserve
  | failJob lease reason policy now =>
    have hpolicy : policy = policies.queues lease.queue := hunder
    subst hpolicy
    exact hwithin.answer fun _ _ hfail => Store.failJob_within hwithin hfail
  | _ => exact hwithin.of_frame hframe (by nofun) (by nofun)

theorem StoreWithin.run {policies : Policies} {store : Store} (hwithin : StoreWithin policies store)
    {calls : List Call} (hcalls : ∀ call ∈ calls, call.Under policies) :
    StoreWithin policies (Durable.run store calls) := by
  induction calls generalizing store with
  | nil => exact hwithin
  | cons call rest ih =>
    refine ih (hwithin.step (hcalls call List.mem_cons_self)) ?_
    intro other hother
    exact hcalls other (List.mem_cons_of_mem _ hother)

/-- Every reachable store is within the bounds of its policies and its recorded sizes are
exact; a plan that breaks a bound after some of its mutations is refused, and the store
stays as it was. -/
theorem stores_within_bounds (limits : StoreLimits) (policies : Policies) (calls : List Call)
    (hcalls : ∀ call ∈ calls, call.Under policies) :
    let store := run (Store.open limits) calls
    StoreWithin policies store ∧
      ∀ plan : CommitPlan, (Call.commitPlan plan).Under policies →
        ∀ front back, plan.mutations = front ++ back →
          ¬ StoreWithin policies (front.foldl (Mutation.effect plan.nowMillis) store) →
          ∃ error, store.step (.commitPlan plan) = (.refused error, store) := by
  intro store
  have hwithin : StoreWithin policies store := (StoreWithin.open policies limits).run hcalls
  refine ⟨hwithin, ?_⟩
  intro plan hunder front back hsplit hbroken
  cases hcommit : store.commitPlan plan with
  | error error =>
    refine ⟨error, ?_⟩
    change answer store .committed (store.commitPlan plan) = _
    rw [hcommit]
    rfl
  | ok committed =>
    obtain ⟨revision, next⟩ := committed
    exact absurd ((Store.commitPlan_within hwithin hunder hcommit).2 front back hsplit) hbroken

/-- Queues with room for one job, and small buckets. -/
def samplePolicies : Policies where
  queues _ := { sampleQueuePolicy with maxDepth := 1 }
  buckets _ :=
    { maxObjects := 2
      maxKeyBytes := 64
      maxObjectBytes := 64
      maxBucketBytes := 64 }

/-- A plan that publishes one job. -/
def samplePublication (id : Identity) : CommitPlan :=
  { expectedRevision := 0
    mutations := [.queuePublish "work" id [1, 2, 3]]
    queues := (∅ : TreeMap String QueuePolicy).insert "work" (samplePolicies.queues "work")
    buckets := ∅
    nowMillis := 0
    completion := none }

theorem samplePublication_under (id : Identity) :
    (Call.commitPlan (samplePublication id)).Under samplePolicies := by
  refine ⟨?_, ?_⟩
  · intro queue policy hpolicy
    have hinsert : ((∅ : TreeMap String QueuePolicy).insert "work"
        (samplePolicies.queues "work"))[queue]? = some policy := hpolicy
    rw [TreeMap.getElem?_insert] at hinsert
    split at hinsert
    · exact (Option.some.inj hinsert).symm
    · rw [TreeMap.getElem?_emptyc] at hinsert
      cases hinsert
  · intro bucket policy hpolicy
    have hempty : (∅ : TreeMap String BucketPolicy)[bucket]? = some policy := hpolicy
    rw [TreeMap.getElem?_emptyc] at hempty
    cases hempty

/-- The queue is full, so a second publication is refused. -/
theorem stores_within_bounds_sample :
    StoreWithin samplePolicies
        (run (Store.open sampleLimits) [.commitPlan (samplePublication 7)]) ∧
      ∃ error, (run (Store.open sampleLimits) [.commitPlan (samplePublication 7)]).step
          (.commitPlan (samplePublication 8)) =
        (.refused error, run (Store.open sampleLimits) [.commitPlan (samplePublication 7)]) := by
  obtain ⟨hwithin, hrefused⟩ := stores_within_bounds sampleLimits samplePolicies
    [.commitPlan (samplePublication 7)] (by simpa using samplePublication_under 7)
  refine ⟨hwithin, hrefused (samplePublication 8) (samplePublication_under 8)
    (samplePublication 8).mutations [] (List.append_nil _).symm ?_⟩
  intro hbroken
  have hcount := hbroken.jobs.count "work"
  revert hcount
  decide +kernel

end Krit.Durable
