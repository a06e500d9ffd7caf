import Krit.DatabaseCommits

/-!
# Explicit completion

Which transactions of an invocation its guest has completed, and what the end of the
invocation tells of the others.
-/

namespace Krit.Databases

open Database History Std.Do

set_option mvcgen.warning false

/-! ## The transactions of an invocation -/

/-- What a call does with a transaction of its invocation, by the slot of the transaction.
One that has begun is named as its connection names it. -/
inductive Mark where
  | began (slot : ℕ) (database : String) (transaction : Option ℕ)
  | completed (slot : ℕ)
  | dropped (slot : ℕ)
  deriving DecidableEq, Repr

namespace Mark

def slot : Mark → ℕ
  | began slot .. | completed slot | dropped slot => slot

def begunSlot : Mark → Option ℕ
  | began slot .. => some slot
  | completed _ | dropped _ => none

end Mark

/-- The slots of the transactions that have begun. -/
def begunSlots (marks : List Mark) : List ℕ := marks.filterMap Mark.begunSlot

/-- A call of a guest, with what the host finds when it serves it. -/
structure GuestCall where
  operation : Operation
  cancelled : Bool
  bounds : OperationBounds
  deriving DecidableEq, Repr

def GuestCall.step (call : GuestCall) : Step :=
  .call call.operation call.cancelled call.bounds

def InvocationDatabases.slots (owned : InvocationDatabases) : List ℕ :=
  owned.live.map LiveTransaction.slot

/-- A transaction has begun when it is live, with a handle or without.  It is completed when
a commit or a rollback on its handle succeeds, and dropped with its handle if it is open
then. -/
def HostState.mark (before after : HostState) (databases : DatabaseTable) (operation : Operation)
    (result : Except RuntimeError (Except String Answer)) : Option Mark :=
  match operation, result with
  | .begin _ name _, _ =>
      (after.databases.slots.find? fun slot => slot ∉ before.databases.slots).map
        fun slot => .began slot name (databases name).connection.transaction
  | .dbCommit handle, .ok (.ok _) => (before.resources handle).map .completed
  | .dbRollback handle, .ok (.ok _) => (before.resources handle).map .completed
  | .drop handle, _ =>
      ((before.resources handle).filter fun slot => slot ∈ before.databases.slots).map .dropped
  | _, _ => none

namespace World

/-- A call of the present invocation, with its mark. -/
def call (config : HostConfig) (world : World) (call : GuestCall) : Option Mark × World :=
  if world.failed then (none, world)
  else
    let (result, host, databases) :=
      world.host.perform world.databases config call.operation call.cancelled call.bounds
    (world.host.mark host databases call.operation result,
      { world with host, databases, failed := !result.isOk })

/-- The host reports an invocation as successful if no call has failed it and the end finds
nothing to reject. -/
def Successful (world : World) : Prop :=
  world.failed = false ∧
    (world.host.databases.finalizeTransactions world.databases).1 = .ok ()

instance (world : World) : Decidable world.Successful :=
  inferInstanceAs (Decidable (_ ∧ _))

theorem call_world (config : HostConfig) (world : World) (call : GuestCall) :
    (world.call config call).2 = (world.step config call.step).2 := by
  unfold World.call World.step GuestCall.step
  cases world.failed <;> rfl

end World

/-! ## Operations that succeed -/

namespace InvocationDatabases

variable {owned : InvocationDatabases} {table : DatabaseTable} {own : LiveTransaction}
variable {slot number : ℕ}

/-- A statement that succeeds leaves its transaction open. -/
theorem slots_statement {α : Type} (hready : Ready number owned.live table)
    (operation : Database → Transaction → Except DatabaseError α × Transaction × Database)
    (hspec : ∀ own, owned.live = [own] → own.transaction.outcome = none →
      (table own.database).connection.transaction = some number →
      Operated number (table own.database)
        (operation (table own.database) own.transaction).1
        (operation (table own.database) own.transaction).2.1
        (operation (table own.database) own.transaction).2.2)
    (hok : (owned.operate table slot (fun live => !live.transaction.isCompleted)
      operation).1.isOk = true) :
    (owned.operate table slot (fun live => !live.transaction.isCompleted)
      operation).2.1.slots = owned.slots := by
  rcases hready.cases slot with habsent | ⟨own, hone, hslot, hopen, hin⟩
  · rw [operate_absent habsent] at hok
    cases hok
  · have hoperated := hspec own hone hopen hin
    rw [← hslot] at hok ⊢
    cases hoperation : operation (table own.database) own.transaction with
    | mk outcome rest =>
      obtain ⟨transaction, database⟩ := rest
      rw [operate_live hone hopen _ operation hoperation] at hok ⊢
      simp only [hoperation] at hoperated
      simp only [isOk_mapError] at hok
      cases hoperated with
      | done isOpen held marked =>
        rw [retain_kept (by simp [Transaction.isCompleted, isOpen])]
        simp [slots, hone]
      | failed isOpen within marked => cases hok
      | ended completed settled within marked => cases hok

/-- A commit or a rollback that succeeds is one of the open transaction, which it closes. -/
theorem slots_closing {α : Type} (hready : Ready number owned.live table)
    (operation : Database → Transaction → Except DatabaseError α × Transaction × Database)
    (hok : (owned.operate table slot (fun live => live.slot ≠ slot) operation).1.isOk = true) :
    owned.slots = [slot] ∧
      (owned.operate table slot (fun live => live.slot ≠ slot) operation).2.1.slots = [] := by
  rcases hready.cases slot with habsent | ⟨own, hone, hslot, hopen, -⟩
  · rw [operate_absent habsent] at hok
    cases hok
  · rw [← hslot]
    cases hoperation : operation (table own.database) own.transaction with
    | mk outcome rest =>
      obtain ⟨transaction, database⟩ := rest
      rw [operate_live hone hopen _ operation hoperation, retain_dropped (by simp)]
      simp [slots, hone]

theorem slots_commit (hready : Ready number owned.live table) (bounds : OperationBounds)
    (hok : (owned.commit table slot bounds).1.isOk = true) :
    owned.slots = [slot] ∧ (owned.commit table slot bounds).2.1.slots = [] := by
  have hclosing := @slots_closing owned table slot number _ hready
    (fun database transaction => database.commit transaction bounds) hok
  exact hclosing

theorem slots_abandonSlot (hlive : owned.live = [own]) :
    (owned.abandonSlot table own.slot).2.1.slots = [] := by
  unfold abandonSlot
  rw [hlive, List.find?_cons_of_pos (by simp)]
  simp only [List.eraseP_cons_of_pos, decide_true]
  split <;> rfl

end InvocationDatabases

/-! ## Calls that succeed -/

open InvocationDatabases

/-- What a call that does not end the invocation does with its transactions. -/
inductive Moves (before after : HostState) : Option Mark → Prop
  | kept (slots : after.databases.slots = before.databases.slots)
      (grows : before.transactionSlots ≤ after.transactionSlots) : Moves before after none
  | began {name : String} {number : Option ℕ} (idle : before.databases.slots = [])
      (slots : after.databases.slots = [before.transactionSlots + 1])
      (next : after.transactionSlots = before.transactionSlots + 1) :
      Moves before after (some (.began (before.transactionSlots + 1) name number))
  | completed {slot : ℕ} (one : before.databases.slots = [slot])
      (slots : after.databases.slots = [])
      (same : after.transactionSlots = before.transactionSlots) :
      Moves before after (some (.completed slot))
  | dropped {slot : ℕ} (one : before.databases.slots = [slot])
      (slots : after.databases.slots = [])
      (same : after.transactionSlots = before.transactionSlots) :
      Moves before after (some (.dropped slot))

theorem Moves.same {state before after : HostState} {mark : Option Mark}
    (hmoves : Moves state after mark) (hdatabases : state.databases = before.databases)
    (hslots : state.transactionSlots = before.transactionSlots) : Moves before after mark := by
  cases hmoves with
  | kept slots grows =>
    rw [hdatabases] at slots
    rw [hslots] at grows
    exact .kept slots grows
  | began idle slots next =>
    rw [hdatabases] at idle
    rw [hslots] at slots next ⊢
    exact .began idle slots next
  | completed one slots same =>
    rw [hdatabases] at one
    exact .completed one slots (same.trans hslots)
  | dropped one slots same =>
    rw [hdatabases] at one
    exact .dropped one slots (same.trans hslots)

namespace HostState

variable {host : HostState} {table : DatabaseTable} {number : ℕ}

theorem onHandle_ok {α : Type} {handle : ℕ} {check : Except RuntimeError Unit}
    {answer : α → Answer}
    {operation : InvocationDatabases → DatabaseTable → ℕ →
      Except RuntimeError α × InvocationDatabases × DatabaseTable}
    (hok : (host.onHandle table handle check answer operation).1.isOk = true) :
    ∃ slot, host.resources handle = some slot ∧
      (operation host.databases table slot).1.isOk = true ∧
      (host.onHandle table handle check answer operation).2.1 =
        { host with databases := (operation host.databases table slot).2.1 } := by
  unfold onHandle at hok ⊢
  simp only [] at hok ⊢
  split at hok
  · cases hok
  · next slot hchecked =>
    simp only [Result.bind_eq_ok, slotOf, Result.ofOption_eq_ok] at hchecked
    obtain ⟨-, -, hslot⟩ := hchecked
    simp only [isOk_map] at hok
    exact ⟨slot, hslot, hok, rfl⟩

theorem dropHandle_moves {handle : ℕ} (hready : Ready number host.databases.live table)
    (hok : (host.dropHandle table handle).1.isOk = true) :
    Moves host (host.dropHandle table handle).2.1
      (((host.resources handle).filter fun slot => slot ∈ host.databases.slots).map .dropped) := by
  unfold dropHandle at hok ⊢
  cases hfound : host.resources handle with
  | none =>
    rw [hfound] at hok
    cases hok
  | some slot =>
    simp only [hfound] at hok ⊢
    rcases hready.cases slot with habsent | ⟨own, hone, hslot, -, -⟩
    · have hnone : slot ∉ host.databases.slots := by
        intro hmem
        obtain ⟨live, hlive, hsame⟩ := List.mem_map.mp hmem
        exact habsent live hlive hsame
      rw [Option.filter_some, if_neg (by simpa using hnone), Option.map_none]
      rw [abandonSlot_absent habsent]
      exact .kept rfl le_rfl
    · have hslots : host.databases.slots = [slot] := by
        rw [slots, hone, ← hslot]
        rfl
      have hafter := @slots_abandonSlot host.databases table own hone
      rw [hslot] at hafter
      rw [Option.filter_some, if_pos (by simp [hslots]), Option.map_some]
      cases habandon : host.databases.abandonSlot table slot with
      | mk outcome rest =>
        obtain ⟨owned, databases⟩ := rest
        simp only [habandon] at hok hafter ⊢
        cases outcome with
        | error error => cases hok
        | ok value => exact .dropped hslots hafter rfl

section Marks

variable {after : HostState} {mode : TransactionMode} {name : String} {place : Option ℕ}
variable {answered : Except RuntimeError (Except String Answer)}

/-- The mark of a call that has begun a transaction. -/
theorem mark_began {slot : ℕ} (hidle : host.databases.slots = [])
    (hslots : after.databases.slots = [slot]) :
    host.mark after table (.begin mode name place) answered =
      some (.began slot name (table name).connection.transaction) := by
  simp [mark, hidle, hslots]

/-- A call that has begun no transaction leaves no mark. -/
theorem mark_refused
    (hslots : ∀ slot ∈ after.databases.slots, slot ∈ host.databases.slots) :
    host.mark after table (.begin mode name place) answered = none := by
  have hfind : after.databases.slots.find? (fun slot => slot ∉ host.databases.slots) = none := by
    apply List.find?_eq_none.mpr
    intro slot hmem
    simpa using hslots slot hmem
  simp only [mark, hfind, Option.map_none]

end Marks

/-- The mark of a commit or a rollback that succeeds. -/
theorem mark_closing {after : HostState} {operation : Operation} {handle slot : ℕ}
    {result : Except RuntimeError Answer} (hok : result.isOk = true)
    (hclosing : operation = .dbCommit handle ∨ operation = .dbRollback handle)
    (hslot : host.resources handle = some slot) :
    host.mark after table operation (result.map .ok) = some (.completed slot) := by
  cases result with
  | error error => cases hok
  | ok answer =>
    rcases hclosing with hclosing | hclosing
    · rw [hclosing]
      simp only [mark, Except.map, hslot, Option.map_some]
    · rw [hclosing]
      simp only [mark, Except.map, hslot, Option.map_some]

theorem mark_same {state after : HostState} {operation : Operation}
    {result : Except RuntimeError (Except String Answer)}
    (hdatabases : state.databases = host.databases)
    (hresources : state.resources = host.resources) :
    state.mark after table operation result = host.mark after table operation result := by
  unfold mark
  rw [hdatabases, hresources]

/-- An admitted call that succeeds. -/
theorem serve_moves (config : HostConfig) (bounds : OperationBounds) (operation : Operation)
    (hready : Ready number host.databases.live table)
    (hsettled : host.databases.live = [] → ∀ name, (table name).Settled)
    (hok : (host.serve table config bounds operation).1.isOk = true) :
    Moves host (host.serve table config bounds operation).2.1
      (host.mark (host.serve table config bounds operation).2.1
        (host.serve table config bounds operation).2.2 operation
        ((host.serve table config bounds operation).1.map .ok)) := by
  cases operation with
  | begin mode name place =>
    have hopened := beginTransaction_opened config mode name place bounds
      fun hidle => hsettled hidle name
    unfold serve at hok ⊢
    obtain ⟨-, outcome, hbeginning, hslot, hhow⟩ := hopened
    rcases hhow with ⟨herror, -⟩ | ⟨given, houtcome, hresult, hresources⟩
    · rw [herror] at hok
      cases hok
    · generalize hlive : (host.beginTransaction table config mode name place
        bounds).2.1.databases.live = lives at hbeginning
      generalize (host.beginTransaction table config mode name place bounds).2.2 = databases
        at hbeginning ⊢
      cases hbeginning with
      | untouched => cases houtcome
      | refused lives settled quiet => cases houtcome
      | started idle isOpen fresh called within ran healthy =>
        have hnone : host.databases.slots = [] := by
          rw [slots, idle]
          rfl
        have hone : (host.beginTransaction table config mode name place
            bounds).2.1.databases.slots = [host.transactionSlots + 1] := by
          rw [slots, hlive]
          rfl
        rw [mark_began hnone hone]
        exact .began hnone hone (hslot rfl)
  | dbQuery handle statement parameters rows =>
    unfold serve at hok ⊢
    obtain ⟨slot, -, hquery, hnext⟩ := onHandle_ok hok
    rw [hnext]
    exact .kept (slots_statement hready _ (fun own _ hopen hin =>
      query_spec statement parameters bounds rows hopen hin) hquery) le_rfl
  | dbExecute handle statement parameters changed =>
    unfold serve at hok ⊢
    obtain ⟨slot, -, hexecute, hnext⟩ := onHandle_ok hok
    rw [hnext]
    exact .kept (slots_statement hready _ (fun own _ hopen hin =>
      execute_spec statement parameters bounds changed hopen hin) hexecute) le_rfl
  | dbCommit handle =>
    unfold serve at hok ⊢
    obtain ⟨slot, hslot, hcommit, hnext⟩ := onHandle_ok hok
    obtain ⟨hone, hnone⟩ := slots_commit hready bounds hcommit
    rw [mark_closing hok (Or.inl rfl) hslot, hnext]
    exact .completed hone hnone rfl
  | dbRollback handle =>
    unfold serve at hok ⊢
    obtain ⟨slot, hslot, hrollback, hnext⟩ := onHandle_ok hok
    obtain ⟨hone, hnone⟩ := slots_closing hready _ hrollback
    rw [mark_closing hok (Or.inr rfl) hslot, hnext]
    exact .completed hone hnone rfl
  | drop handle =>
    unfold serve at hok ⊢
    exact dropHandle_moves hready hok

/-- A call that does not end the invocation. -/
theorem perform_moves (config : HostConfig) (operation : Operation) (cancelled : Bool)
    (bounds : OperationBounds) (hready : Ready number host.databases.live table)
    (hsettled : host.databases.live = [] → ∀ name, (table name).Settled)
    (hok : (host.perform table config operation cancelled bounds).1.isOk = true) :
    Moves host (host.perform table config operation cancelled bounds).2.1
      (host.mark (host.perform table config operation cancelled bounds).2.1
        (host.perform table config operation cancelled bounds).2.2 operation
        (host.perform table config operation cancelled bounds).1) := by
  unfold perform at hok ⊢
  cases haccept : host.accept config operation cancelled with
  | error error =>
    rw [haccept] at hok
    cases hok
  | ok admitted =>
    obtain ⟨state, skipped⟩ := admitted
    obtain ⟨hdatabases, hresources, hslots⟩ := accept_same haccept
    rw [haccept] at hok
    cases skipped with
    | true =>
      have hnone : host.mark state table operation
          (.ok (.error "operation cancelled by embedding host")) = none := by
        cases operation with
        | drop handle => cases haccept
        | begin mode name place =>
          apply mark_refused
          rw [hdatabases]
          exact fun _ hmem => hmem
        | dbQuery handle statement parameters rows => rfl
        | dbExecute handle statement parameters changed => rfl
        | dbCommit handle => rfl
        | dbRollback handle => rfl
      simp only [hnone]
      exact .kept (by rw [hdatabases]) hslots.ge
    | false =>
      simp only [isOk_map] at hok ⊢
      rw [← hdatabases] at hready hsettled
      have hmoves := serve_moves config bounds operation hready hsettled hok
      rw [mark_same hdatabases hresources] at hmoves
      exact hmoves.same hdatabases hslots

end HostState

/-! ## Accounting for the transactions -/

section Marks

variable {marks more : List Mark} {slot : ℕ}

theorem mem_begunSlots :
    slot ∈ begunSlots marks ↔ ∃ name number, Mark.began slot name number ∈ marks := by
  unfold begunSlots
  rw [List.mem_filterMap]
  constructor
  · rintro ⟨mark, hmem, hslot⟩
    cases mark with
    | began other name number =>
      cases hslot
      exact ⟨name, number, hmem⟩
    | completed other => cases hslot
    | dropped other => cases hslot
  · rintro ⟨name, number, hmem⟩
    exact ⟨_, hmem, rfl⟩

theorem begunSlots_append : begunSlots (marks ++ more) = begunSlots marks ++ begunSlots more :=
  List.filterMap_append

theorem begunSlots_began (name : String) (number : Option ℕ) :
    begunSlots (marks ++ [.began slot name number]) = begunSlots marks ++ [slot] :=
  begunSlots_append

/-- The end of a transaction begins none. -/
theorem begunSlots_closed {mark : Mark} (hmark : mark = .completed slot ∨ mark = .dropped slot) :
    begunSlots (marks ++ [mark]) = begunSlots marks := by
  rw [begunSlots_append]
  rcases hmark with hmark | hmark
  · rw [hmark]
    exact List.append_nil _
  · rw [hmark]
    exact List.append_nil _

end Marks

/-- The marks of an invocation account for its open transactions: what has begun is completed,
dropped or open, and what is open or dropped is not completed. -/
structure Accounted (marks : List Mark) (host : HostState) : Prop where
  begun : ∀ slot ∈ begunSlots marks,
    .completed slot ∈ marks ∨ .dropped slot ∈ marks ∨ slot ∈ host.databases.slots
  opened : ∀ slot ∈ host.databases.slots,
    slot ∈ begunSlots marks ∧ .completed slot ∉ marks ∧ .dropped slot ∉ marks
  dropped : ∀ slot, .dropped slot ∈ marks → slot ∈ begunSlots marks ∧ .completed slot ∉ marks
  bounded : ∀ mark ∈ marks, mark.slot ≤ host.transactionSlots

theorem accounted_start : Accounted [] .start where
  begun := by
    intro slot hmem
    cases hmem
  opened := by
    intro slot hmem
    cases hmem
  dropped := by
    intro slot hmem
    cases hmem
  bounded := by
    intro mark hmem
    cases hmem

section Accounts

variable {marks : List Mark} {before after : HostState} {mark : Option Mark}

theorem Accounted.kept (haccounted : Accounted marks before)
    (hslots : after.databases.slots = before.databases.slots)
    (hgrows : before.transactionSlots ≤ after.transactionSlots) : Accounted marks after := by
  obtain ⟨hbegun, hopened, hdropped, hbounded⟩ := haccounted
  rw [← hslots] at hopened
  refine ⟨?_, hopened, hdropped, ?_⟩
  · intro slot hmem
    rw [hslots]
    exact hbegun slot hmem
  · intro mark hmem
    exact (hbounded mark hmem).trans hgrows

/-- The next slot has no mark. -/
theorem Accounted.fresh (haccounted : Accounted marks before) :
    ∀ mark ∈ marks, mark.slot ≠ before.transactionSlots + 1 := by
  intro mark hmem hslot
  have hle := haccounted.bounded mark hmem
  omega

theorem Accounted.began {name : String} {number : Option ℕ}
    (haccounted : Accounted marks before) (hidle : before.databases.slots = [])
    (hslots : after.databases.slots = [before.transactionSlots + 1])
    (hnext : after.transactionSlots = before.transactionSlots + 1) :
    Accounted (marks ++ [.began (before.transactionSlots + 1) name number]) after := by
  have hfresh := haccounted.fresh
  obtain ⟨hbegun, -, hdropped, hbounded⟩ := haccounted
  -- the new mark is neither a completion nor a drop
  have hold : ∀ mark : Mark, mark.begunSlot = none →
      mark ∈ marks ++ [.began (before.transactionSlots + 1) name number] → mark ∈ marks := by
    intro mark hnone hmem
    rcases List.mem_append.mp hmem with hold | hnew
    · exact hold
    · rw [List.mem_singleton.mp hnew] at hnone
      cases hnone
  refine ⟨?_, ?_, ?_, ?_⟩
  · intro slot hmem
    rw [hslots]
    rw [begunSlots_began] at hmem
    rcases List.mem_append.mp hmem with hearlier | hnew
    · have hcases := hbegun slot hearlier
      rw [hidle] at hcases
      rcases hcases with hcompleted | hgone | hopen
      · exact Or.inl (List.mem_append_left _ hcompleted)
      · exact Or.inr (Or.inl (List.mem_append_left _ hgone))
      · cases hopen
    · exact Or.inr (Or.inr hnew)
  · intro slot hmem
    rw [hslots] at hmem
    rw [List.mem_singleton.mp hmem, begunSlots_began]
    exact ⟨List.mem_append_right _ (List.mem_singleton_self _),
      fun hcompleted => hfresh _ (hold _ rfl hcompleted) rfl,
      fun hgone => hfresh _ (hold _ rfl hgone) rfl⟩
  · intro slot hmem
    obtain ⟨hbegan, hnot⟩ := hdropped slot (hold _ rfl hmem)
    rw [begunSlots_began]
    exact ⟨List.mem_append_left _ hbegan, fun hcompleted => hnot (hold _ rfl hcompleted)⟩
  · intro mark hmem
    rw [hnext]
    rcases List.mem_append.mp hmem with hearlier | hnew
    · exact (hbounded mark hearlier).trans (Nat.le_succ _)
    · rw [List.mem_singleton.mp hnew]
      exact le_rfl

/-- A mark of the open transaction closes it. -/
theorem Accounted.closed {slot : ℕ} {mark : Mark} (haccounted : Accounted marks before)
    (hmark : mark = .completed slot ∨ mark = .dropped slot)
    (hone : before.databases.slots = [slot]) (hslots : after.databases.slots = [])
    (hsame : after.transactionSlots = before.transactionSlots) :
    Accounted (marks ++ [mark]) after := by
  obtain ⟨hbegun, hopened, hdropped, hbounded⟩ := haccounted
  obtain ⟨hbegan, hnot, hkept⟩ := hopened slot (by rw [hone]; exact List.mem_singleton_self _)
  have hbounds := fun other hmem => (hbounded other hmem).trans hsame.ge
  have hbegunSlot : slot ≤ after.transactionSlots := by
    obtain ⟨name, number, hmem⟩ := mem_begunSlots.mp hbegan
    exact hbounds _ hmem
  refine ⟨?_, ?_, ?_, ?_⟩
  · intro other hmem
    rw [begunSlots_closed hmark] at hmem
    rcases hbegun other hmem with hcompleted | hgone | hopen
    · exact Or.inl (List.mem_append_left _ hcompleted)
    · exact Or.inr (Or.inl (List.mem_append_left _ hgone))
    · rw [hone] at hopen
      rw [List.mem_singleton.mp hopen]
      rcases hmark with hmark | hmark
      · rw [hmark]
        exact Or.inl (List.mem_append_right _ (List.mem_singleton_self _))
      · rw [hmark]
        exact Or.inr (Or.inl (List.mem_append_right _ (List.mem_singleton_self _)))
  · intro other hmem
    rw [hslots] at hmem
    cases hmem
  · intro other hmem
    rw [begunSlots_closed hmark]
    rcases List.mem_append.mp hmem with hold | hnew
    · -- a transaction that was dropped is not the one that is completed now
      obtain ⟨hearlier, hother⟩ := hdropped other hold
      refine ⟨hearlier, ?_⟩
      intro hcompleted
      rcases List.mem_append.mp hcompleted with hcompleted | hnew
      · exact hother hcompleted
      · rcases hmark with hmark | hmark
        · rw [hmark] at hnew
          cases List.mem_singleton.mp hnew
          exact hkept hold
        · rw [hmark] at hnew
          cases List.mem_singleton.mp hnew
    · rcases hmark with hmark | hmark
      · rw [hmark] at hnew
        cases List.mem_singleton.mp hnew
      · rw [hmark] at hnew ⊢
        cases List.mem_singleton.mp hnew
        refine ⟨hbegan, ?_⟩
        intro hcompleted
        rcases List.mem_append.mp hcompleted with hcompleted | hnew
        · exact hnot hcompleted
        · cases List.mem_singleton.mp hnew
  · intro other hmem
    rcases List.mem_append.mp hmem with hold | hnew
    · exact hbounds other hold
    · rw [List.mem_singleton.mp hnew]
      rcases hmark with hmark | hmark
      · rw [hmark]
        exact hbegunSlot
      · rw [hmark]
        exact hbegunSlot

theorem Accounted.moves (haccounted : Accounted marks before)
    (hmoves : Moves before after mark) : Accounted (marks ++ mark.toList) after := by
  cases hmoves with
  | kept slots grows =>
    rw [Option.toList_none, List.append_nil]
    exact haccounted.kept slots grows
  | began idle slots next => exact haccounted.began idle slots next
  | completed one slots same => exact haccounted.closed (Or.inl rfl) one slots same
  | dropped one slots same => exact haccounted.closed (Or.inr rfl) one slots same

end Accounts

/-! ## Transactions that are not committed -/

section Pending

variable {owned : InvocationDatabases} {host : HostState} {table after : DatabaseTable}
variable {slot number : ℕ} {live lives : List LiveTransaction} {operation : Operation}

/-- A live transaction stays at its slot and on its database. -/
theorem Change.place {succeeded : Bool}
    (hchange : Change slot number live table succeeded lives after) :
    ∀ own ∈ lives, ∃ old ∈ live, old.slot = own.slot ∧ old.database = own.database := by
  intro own hown
  cases hchange with
  | same => exact ⟨own, hown, rfl, rfl⟩
  | operated one mine isOpen held marked =>
    rw [one, List.mem_singleton.mp hown]
    exact ⟨_, List.mem_singleton_self _, rfl, rfl⟩
  | failed one mine isOpen within marked =>
    rw [one, List.mem_singleton.mp hown]
    exact ⟨_, List.mem_singleton_self _, rfl, rfl⟩
  | closed one mine settled within marked => cases hown

/-- A commit leaves no live transaction, or touches nothing. -/
theorem InvocationDatabases.commit_leaves (hready : Ready number owned.live table) (slot : ℕ)
    (bounds : OperationBounds) :
    (owned.commit table slot bounds).2.1.live = [] ∨
      (owned.commit table slot bounds).2.2 = table := by
  unfold InvocationDatabases.commit
  dsimp only
  rcases hready.cases slot with habsent | ⟨own, hone, hslot, hopen, -⟩
  · rw [operate_absent habsent]
    exact Or.inr rfl
  · left
    rw [← hslot]
    cases hoperation : (table own.database).commit own.transaction bounds with
    | mk outcome rest =>
      obtain ⟨transaction, database⟩ := rest
      rw [operate_live hone hopen _ (fun database transaction =>
        database.commit transaction bounds) hoperation, retain_dropped (by simp)]

theorem HostState.perform_commit_leaves (hready : Ready number host.databases.live table)
    (config : HostConfig) (handle : ℕ) (cancelled : Bool) (bounds : OperationBounds) :
    (host.perform table config (.dbCommit handle) cancelled bounds).2.1.databases.live = [] ∨
      (host.perform table config (.dbCommit handle) cancelled bounds).2.2 = table := by
  unfold HostState.perform
  cases haccept : host.accept config (.dbCommit handle) cancelled with
  | error error => exact Or.inr rfl
  | ok admitted =>
    obtain ⟨state, skipped⟩ := admitted
    obtain ⟨hdatabases, -, -⟩ := accept_same haccept
    rw [← hdatabases] at hready
    cases skipped with
    | true => exact Or.inr rfl
    | false =>
      dsimp only
      unfold HostState.serve HostState.onHandle
      dsimp only
      split
      · exact Or.inr rfl
      · next slot hchecked => exact commit_leaves hready slot bounds

/-- While a transaction stays open, no call commits it. -/
theorem HostState.perform_uncommitted {own : LiveTransaction}
    (hready : Ready number host.databases.live table) (config : HostConfig) (cancelled : Bool)
    (bounds : OperationBounds)
    (hown : own ∈ (host.perform table config operation cancelled bounds).2.1.databases.live)
    {begun : ℕ} (huncommitted : Uncommitted begun (table own.database).connection) :
    Uncommitted begun
      ((host.perform table config operation cancelled bounds).2.2 own.database).connection := by
  by_cases hcommit : ∃ handle, operation = .dbCommit handle
  · obtain ⟨closing, hclosing⟩ := hcommit
    rw [hclosing] at hown ⊢
    rcases perform_commit_leaves hready config closing cancelled bounds with hnone | hsame
    · rw [hnone] at hown
      cases hown
    · rw [hsame]
      exact huncommitted
  · have hkept : KeptBy (On own.database (Uncommitted begun))
        (host.perform table config operation cancelled bounds).2.2 :=
      (keptBy_on_iff.mpr huncommitted).perform
        (fun name => (uncommitted_stable begun).on own.database name) config operation cancelled
        bounds fun handle hcommitted => absurd ⟨handle, hcommitted⟩ hcommit
    exact keptBy_on_iff.mp hkept

/-- A call on a handle begins nothing. -/
theorem begunSlots_handle {marks : List Mark} {before next : HostState} {handle : ℕ}
    (hhandle : operation.handle = some handle)
    (result : Except RuntimeError (Except String Answer)) :
    begunSlots (marks ++ (before.mark next table operation result).toList) =
      begunSlots marks := by
  cases hmark : before.mark next table operation result with
  | none => rw [Option.toList_none, List.append_nil]
  | some mark =>
    have hnone : mark.begunSlot = none := by
      cases operation with
      | begin mode name place => cases hhandle
      | dbQuery handle statement parameters rows => cases hmark
      | dbExecute handle statement parameters changed => cases hmark
      | dbCommit handle | dbRollback handle =>
        cases result with
        | error error => cases hmark
        | ok outcome =>
          cases outcome with
          | error message => cases hmark
          | ok answer =>
            obtain ⟨slot, -, hslot⟩ := Option.map_eq_some_iff.mp hmark
            rw [← hslot]
            rfl
      | drop handle =>
        obtain ⟨slot, -, hslot⟩ := Option.map_eq_some_iff.mp hmark
        rw [← hslot]
        rfl
    unfold begunSlots
    rw [Option.toList_some, List.filterMap_append, List.filterMap_cons_none hnone,
      List.filterMap_nil, List.append_nil]

/-- A transaction that was just begun is not committed. -/
theorem HostState.perform_begun (hnamed : KeptBy (fun _ => Named) table) (config : HostConfig)
    (mode : TransactionMode) (name : String) (place : Option ℕ) (cancelled : Bool)
    (bounds : OperationBounds) {begun : ℕ} (hfresh : (table name).connection.calls ≤ begun)
    (hcalled : begun < ((host.perform table config (.begin mode name place) cancelled
      bounds).2.2 name).connection.calls) :
    Uncommitted begun ((host.perform table config (.begin mode name place) cancelled
      bounds).2.2 name).connection := by
  refine ⟨hcalled, ?_⟩
  have hsame : KeptBy (On name fun connection =>
      connection.committed = (table name).connection.committed) table :=
    keptBy_on_iff.mpr rfl
  have hkept : KeptBy (On name fun connection =>
      connection.committed = (table name).connection.committed)
      (host.perform table config (.begin mode name place) cancelled bounds).2.2 :=
    hsame.perform
      (fun other => (committed_stable (table name).connection.committed).on name other) config
      (.begin mode name place) cancelled bounds fun handle hcommit => by cases hcommit
  intro hcommitted
  rw [keptBy_on_iff.mp hkept] at hcommitted
  have hless := (hnamed name).1 begun hcommitted
  omega

end Pending

/-- The transactions that an invocation holds are among those that it has begun, each at a
slot of its own, and they are not committed. -/
structure Pending (marks : List Mark) (world : World) : Prop where
  distinct : (begunSlots marks).Nodup
  uncommitted : ∀ own ∈ world.host.databases.live, ∃ number,
    .began own.slot own.database (some number) ∈ marks ∧
      Uncommitted number (world.databases own.database).connection

section Calls

variable {marks : List Mark} {events : List Event} {world : World}

/-- Before a transaction begins, every database is out of transactions or unusable. -/
theorem Invariant.idle_settled {events : List Event} {world : World}
    (hinvariant : Invariant events world) (hidle : world.host.databases.live = [])
    (name : String) : (world.databases name).Settled := by
  apply hinvariant.settled
  rw [hidle]
  intro own hown
  cases hown

theorem pending_start (hidle : world.host = .start) : Pending [] world where
  distinct := List.nodup_nil
  uncommitted := by
    rw [hidle]
    intro own hown
    cases hown

/-- A call on a handle keeps what is pending. -/
theorem Pending.handleCall {number handle : ℕ} (hpending : Pending marks world)
    (hready : Ready number world.host.databases.live world.databases) (config : HostConfig)
    (call : GuestCall) (hrunning : world.failed = false)
    (hhandle : call.operation.handle = some handle) :
    Pending (marks ++ (world.call config call).1.toList) (world.call config call).2 := by
  unfold World.call
  rw [if_neg (by simp [hrunning])]
  dsimp only
  refine ⟨?_, ?_⟩
  · rw [begunSlots_handle hhandle]
    exact hpending.distinct
  · intro own hown
    dsimp only at hown ⊢
    have hserved := HostState.perform_served config call.cancelled call.bounds hhandle hready
    have hplace : ∃ old ∈ world.host.databases.live,
        old.slot = own.slot ∧ old.database = own.database := by
      rcases hserved.change with ⟨hlive, -⟩ | ⟨slot, -, hchange⟩
      · rw [hlive] at hown
        exact ⟨own, hown, rfl, rfl⟩
      · exact hchange.place own hown
    obtain ⟨old, hold, hslot, hdatabase⟩ := hplace
    obtain ⟨begun, hbegan, huncommitted⟩ := hpending.uncommitted old hold
    rw [hslot, hdatabase] at hbegan
    rw [hdatabase] at huncommitted
    exact ⟨begun, List.mem_append_left _ hbegan,
      HostState.perform_uncommitted hready config call.cancelled call.bounds hown
        huncommitted⟩

/-- A call for a new transaction adds it, if it begins. -/
theorem Pending.beginCall (hpending : Pending marks world)
    (haccounted : Accounted marks world.host)
    (hnamed : KeptBy (fun _ => Named) world.databases)
    (hsettled : world.host.databases.live = [] → ∀ name, (world.databases name).Settled)
    (config : HostConfig) (mode : TransactionMode) (name : String) (place : Option ℕ)
    (cancelled : Bool) (bounds : OperationBounds) (hrunning : world.failed = false) :
    Pending (marks ++ (world.call config ⟨.begin mode name place, cancelled, bounds⟩).1.toList)
      (world.call config ⟨.begin mode name place, cancelled, bounds⟩).2 := by
  have hbegin := HostState.perform_begin config mode name place cancelled bounds
    fun hidle => hsettled hidle name
  have hbegun := @HostState.perform_begun world.host world.databases hnamed config mode name
    place cancelled bounds
  obtain ⟨inner, ⟨-, outcome, hbeginning, -, -⟩, -⟩ := hbegin
  unfold World.call
  rw [if_neg (by simp [hrunning])]
  dsimp only
  generalize world.host.perform world.databases config (.begin mode name place) cancelled
    bounds = performed at hbeginning hbegun
  obtain ⟨result, next, after⟩ := performed
  dsimp only at hbeginning hbegun ⊢
  generalize hlive : next.databases.live = lives at hbeginning
  cases hbeginning with
  | untouched =>
    have hkept : world.host.mark next world.databases (.begin mode name place) result = none := by
      apply HostState.mark_refused
      rw [InvocationDatabases.slots, hlive]
      exact fun _ hmem => hmem
    rw [hkept, Option.toList_none, List.append_nil]
    refine ⟨hpending.distinct, ?_⟩
    dsimp only
    rw [hlive]
    exact hpending.uncommitted
  | @refused _ database lives settled quiet =>
    have hkept : world.host.mark next (Function.update world.databases name database)
        (.begin mode name place) result = none := by
      apply HostState.mark_refused
      rw [InvocationDatabases.slots, hlive]
      intro slot hmem
      cases hmem
    rw [hkept, Option.toList_none, List.append_nil]
    refine ⟨hpending.distinct, ?_⟩
    dsimp only
    rw [hlive]
    intro own hown
    cases hown
  | @started transaction database number idle isOpen fresh called within ran healthy =>
    have hmark : world.host.mark next (Function.update world.databases name database)
        (.begin mode name place) result =
          some (.began (world.host.transactionSlots + 1) name (some number)) := by
      have hnone : world.host.databases.slots = [] := by
        rw [InvocationDatabases.slots, idle]
        rfl
      have hone : next.databases.slots = [world.host.transactionSlots + 1] := by
        rw [InvocationDatabases.slots, hlive]
        rfl
      rw [HostState.mark_began hnone hone, Function.update_self, within]
    rw [hmark, Option.toList_some]
    refine ⟨?_, ?_⟩
    · rw [begunSlots_began]
      apply List.nodup_append.mpr
      refine ⟨hpending.distinct, List.nodup_singleton _, ?_⟩
      intro old hold new hnew heq
      obtain ⟨other, earlier, hmem⟩ := mem_begunSlots.mp hold
      rw [List.mem_singleton.mp hnew] at heq
      exact haccounted.fresh _ hmem heq
    · dsimp only
      rw [hlive]
      intro own hown
      rw [List.mem_singleton.mp hown]
      rw [Function.update_self] at hbegun
      refine ⟨number, List.mem_append_right _ (List.mem_singleton_self _), ?_⟩
      rw [Function.update_self]
      exact hbegun fresh called

/-- Every call keeps what is pending. -/
theorem Pending.call (hpending : Pending marks world) (hinvariant : Invariant events world)
    (haccounted : world.failed = false → Accounted marks world.host)
    (hnamed : KeptBy (fun _ => Named) world.databases) (config : HostConfig)
    (call : GuestCall) :
    Pending (marks ++ (world.call config call).1.toList) (world.call config call).2 := by
  cases hrunning : world.failed with
  | true =>
    unfold World.call
    rw [if_pos hrunning, Option.toList_none, List.append_nil]
    exact hpending
  | false =>
    obtain ⟨number, hready, -⟩ := hinvariant.live.ready hrunning
    obtain ⟨operation, cancelled, bounds⟩ := call
    cases hhandle : operation.handle with
    | some handle =>
      exact hpending.handleCall hready config ⟨operation, cancelled, bounds⟩ hrunning hhandle
    | none =>
      cases operation with
      | begin mode name place =>
        exact hpending.beginCall (haccounted hrunning) hnamed hinvariant.idle_settled config mode
          name place cancelled bounds hrunning
      | dbQuery handle statement parameters rows => cases hhandle
      | dbExecute handle statement parameters changed => cases hhandle
      | dbCommit handle => cases hhandle
      | dbRollback handle => cases hhandle
      | drop handle => cases hhandle

end Calls

/-! ## The end of an invocation -/

/-- Whether a `ROLLBACK` that is answered so has left the transaction. -/
def Reply.leaves : Reply → Bool
  | .ok => true
  | .failed _ rolledBack => rolledBack

/-- The next call takes the connection out of its transaction, if it is a `ROLLBACK`. -/
def RollbackAnswered (connection : Connection) : Prop :=
  connection.transaction = none ∨ (connection.replies connection.calls).leaves = true

instance (connection : Connection) : Decidable (RollbackAnswered connection) :=
  inferInstanceAs (Decidable (_ ∨ _))

/-- The transaction is over, and is not one of those that were committed. -/
def RolledBack (number : ℕ) (connection : Connection) : Prop :=
  number ∉ connection.committed ∧ connection.transaction ≠ some number

section Ends

variable {database : Database} {marks : List Mark} {events : List Event} {world : World}

theorem rollbackBatch_answered :
    ⦃fun connection => ⌜RollbackAnswered connection⌝⦄ rollbackBatch
    ⦃post⟨fun _ connection => ⌜connection.transaction = none⌝,
      fun _ connection => ⌜connection.transaction = none⌝⟩⦄ := by
  mvcgen [rollbackBatch, endBatch, request]
  case vc1 connection hanswered hauto => exact Option.isNone_iff_eq_none.mp hauto
  case vc2 connection hanswered hauto code rolledBack hreply =>
    cases rolledBack with
    | true => rfl
    | false =>
      rcases hanswered with hnone | hleaves
      · exact hnone
      · rw [hreply] at hleaves
        cases hleaves

theorem rollbackNow_answered (hanswered : RollbackAnswered database.connection) :
    database.rollbackNow.2.connection.transaction = none := by
  unfold Database.rollbackNow
  split
  · next hauto => exact Option.isNone_iff_eq_none.mp hauto
  · unfold Database.undo
    cases htalk : database.talk rollbackBatch with
    | mk result next =>
      have hnone := (talk_of_triple rollbackBatch_answered hanswered htalk).2
      cases result with
      | ok value => exact hnone
      | error error => exact hnone

/-- The end of an invocation takes the connection of its live transaction out of it. -/
theorem finish_leaves (hinvariant : Invariant events world) (config : HostConfig)
    {own : LiveTransaction} (hown : own ∈ world.host.databases.live)
    (hanswered : RollbackAnswered (world.databases own.database).connection) :
    ((world.step config .finish).2.databases own.database).connection.transaction = none := by
  have hone : world.host.databases.live = [own] ∧ own.transaction.outcome = none := by
    cases hinvariant.live with
    | idle none =>
      rw [none] at hown
      cases hown
    | running one isOpen slot within owned =>
      rw [one] at hown
      rw [List.mem_singleton.mp hown]
      exact ⟨one, isOpen⟩
    | broken one isOpen failed =>
      rw [one] at hown
      rw [List.mem_singleton.mp hown]
      exact ⟨one, isOpen⟩
  have hafter := @finalize_live world.host.databases world.databases own hone.1 hone.2
  have hrollback : ((world.databases own.database).abandon own.transaction).2.2 =
      (world.databases own.database).rollbackNow.2 := by
    unfold Database.abandon Database.rollback Transaction.requireOpen Transaction.isCompleted
    rw [hone.2]
    rfl
  rw [World.step]
  dsimp only
  rw [hafter, Function.update_self, hrollback]
  exact rollbackNow_answered hanswered

/-- What an invocation leaves open is rolled back at its end. -/
theorem Pending.finish (hpending : Pending marks world) (hinvariant : Invariant events world)
    (config : HostConfig)
    (hanswered : ∀ own ∈ world.host.databases.live,
      RollbackAnswered (world.databases own.database).connection)
    {slot : ℕ} (hslot : slot ∈ world.host.databases.slots) :
    ∃ name number, .began slot name (some number) ∈ marks ∧
      RolledBack number ((world.step config .finish).2.databases name).connection := by
  obtain ⟨own, hown, hsame⟩ := List.mem_map.mp hslot
  obtain ⟨number, hbegan, huncommitted⟩ := hpending.uncommitted own hown
  rw [hsame] at hbegan
  have hkept : KeptBy (On own.database (Uncommitted number))
      (world.host.databases.finalizeTransactions world.databases).2.2 :=
    (keptBy_on_iff.mpr huncommitted).finalizeTransactions
      fun name => (uncommitted_stable number).on own.database name
  refine ⟨own.database, number, hbegan, (keptBy_on_iff.mp hkept).2, ?_⟩
  rw [finish_leaves hinvariant config hown (hanswered own hown)]
  exact Option.some_ne_none number |>.symm

end Ends

/-! ## Invocations -/

/-- An invocation is not successful with a transaction left open. -/
theorem World.Successful.idle {world : World} (hsuccess : world.Successful) :
    world.host.databases.slots = [] := by
  obtain ⟨-, hfinal⟩ := hsuccess
  cases hlive : world.host.databases.live with
  | nil =>
    rw [slots, hlive]
    rfl
  | cons own rest =>
    unfold finalizeTransactions at hfinal
    simp only [hlive, List.isEmpty_cons, Bool.false_eq_true, if_false] at hfinal
    split at hfinal
    · cases hfinal
    · cases hfinal

theorem World.call_moves {events : List Event} {world : World}
    (hinvariant : Invariant events world) (config : HostConfig) (call : GuestCall)
    (hrunning : world.failed = false) (hnext : (world.call config call).2.failed = false) :
    Moves world.host (world.call config call).2.host (world.call config call).1 := by
  obtain ⟨number, hready, -⟩ := hinvariant.live.ready hrunning
  unfold World.call at hnext ⊢
  rw [if_neg (by simp [hrunning])] at hnext ⊢
  have hok : (world.host.perform world.databases config call.operation call.cancelled
      call.bounds).1.isOk = true := by
    simpa using hnext
  exact HostState.perform_moves config call.operation call.cancelled call.bounds hready
    hinvariant.idle_settled hok

/-- What the host and the marks of an invocation have in common before each of its calls. -/
structure Tracked (marks : List Mark) (world : World) : Prop where
  invariant : ∃ events, Invariant events world
  named : KeptBy (fun _ => Named) world.databases
  pending : Pending marks world
  accounted : world.failed = false → Accounted marks world.host

theorem Tracked.call {marks : List Mark} {world : World} (htracked : Tracked marks world)
    (config : HostConfig) (call : GuestCall) :
    Tracked (marks ++ (world.call config call).1.toList) (world.call config call).2 := by
  obtain ⟨⟨events, hinvariant⟩, hnamed, hpending, haccounted⟩ := htracked
  refine ⟨⟨events ++ (world.step config call.step).1, ?_⟩, ?_,
    hpending.call hinvariant haccounted hnamed config call, ?_⟩
  · rw [World.call_world]
    exact (hinvariant.step config call.step).1
  · rw [World.call_world]
    exact hnamed.step (fun _ => named_lasting) config call.step
  · intro hnext
    have hrunning : world.failed = false := by
      by_contra hfailed
      rw [Bool.not_eq_false] at hfailed
      rw [World.call, if_pos hfailed, hfailed] at hnext
      cases hnext
    exact (haccounted hrunning).moves (World.call_moves hinvariant config call hrunning hnext)

section Invocations

variable (config : HostConfig) (definitions : String → DatabaseDefinition)

/-- The world in which an invocation starts, after the calls of those before it. -/
def startOf (past : List (List GuestCall)) : World :=
  runOf config definitions (past.flatMap fun calls => calls.map GuestCall.step ++ [.finish])

/-- The world that the calls of the invocation lead to. -/
def finalOf (past : List (List GuestCall)) (calls : List GuestCall) : World :=
  run (World.call config) (startOf config definitions past) calls

/-- What the calls did with the transactions of the invocation. -/
def marksOf (past : List (List GuestCall)) (calls : List GuestCall) : List Mark :=
  (history (World.call config) (startOf config definitions past) calls).filterMap Prod.snd

theorem startOf_fresh (past : List (List GuestCall)) :
    (startOf config definitions past).host = .start ∧
      (startOf config definitions past).failed = false := by
  unfold startOf runOf
  cases past using List.reverseRecOn with
  | nil => exact ⟨rfl, rfl⟩
  | append_singleton earlier last =>
    rw [List.flatMap_append, List.flatMap_singleton, run_append, run_append]
    exact ⟨rfl, rfl⟩

theorem finalOf_tracked (past : List (List GuestCall)) (calls : List GuestCall) :
    Tracked (marksOf config definitions past calls) (finalOf config definitions past calls) := by
  have hfresh := (startOf_fresh config definitions past).1
  have hstart : Tracked [] (startOf config definitions past) := by
    refine ⟨⟨_, runOf_invariant config definitions _⟩, runOf_named config definitions _,
      pending_start hfresh, ?_⟩
    intro _
    rw [hfresh]
    exact accounted_start
  have hrun := invariant (World.call config)
    (motive := fun made world => Tracked (made.filterMap Prod.snd) world) hstart
    (by
      intro made world call htracked
      have hmarks : (made ++ [(call, (world.call config call).1)]).filterMap Prod.snd =
          made.filterMap Prod.snd ++ (world.call config call).1.toList := by
        rw [List.filterMap_append]
        cases (world.call config call).1 <;> rfl
      rw [hmarks]
      exact htracked.call config call)
    calls
  exact hrun

/-- Whether an invocation meets its duty of explicit completion: it is successful only if all
that it began was completed by its guest, it fails if a transaction was dropped or is left
open, such a transaction is rolled back by then, and afterwards every database is out of
transactions or unusable. -/
structure ExplicitCompletion (marks : List Mark) (final : World) : Prop where
  completed : final.Successful → ∀ slot ∈ begunSlots marks, .completed slot ∈ marks
  dropped : ∀ slot, .dropped slot ∈ marks → ¬ final.Successful
  leftOpen : ∀ slot ∈ final.host.databases.slots, ¬ final.Successful
  rolledBack : ∀ slot, .dropped slot ∈ marks ∨ slot ∈ final.host.databases.slots →
    ∃ name number, .began slot name (some number) ∈ marks ∧
      RolledBack number ((final.step config .finish).2.databases name).connection
  settled : ∀ name, ((final.step config .finish).2.databases name).Settled

/-- An invocation that drops no open transaction meets its duty of explicit completion, unless
SQLite refuses the `ROLLBACK` of what is left open.  One that is successful has completed all
that it began exactly if it dropped none of it, and no two transactions of an invocation have
the same slot. -/
theorem explicit_completion_without_drops (past : List (List GuestCall))
    (calls : List GuestCall) :
    ((∀ slot, .dropped slot ∉ marksOf config definitions past calls) →
      (∀ own ∈ (finalOf config definitions past calls).host.databases.live,
        RollbackAnswered
          ((finalOf config definitions past calls).databases own.database).connection) →
      ExplicitCompletion config (marksOf config definitions past calls)
        (finalOf config definitions past calls)) ∧
    ((finalOf config definitions past calls).Successful →
      ((∀ slot ∈ begunSlots (marksOf config definitions past calls),
          .completed slot ∈ marksOf config definitions past calls) ↔
        ∀ slot, .dropped slot ∉ marksOf config definitions past calls)) ∧
    (begunSlots (marksOf config definitions past calls)).Nodup := by
  obtain ⟨⟨events, hinvariant⟩, -, hpending, haccounted⟩ :=
    finalOf_tracked config definitions past calls
  have hcompleted : (∀ slot, .dropped slot ∉ marksOf config definitions past calls) →
      (finalOf config definitions past calls).Successful →
      ∀ slot ∈ begunSlots (marksOf config definitions past calls),
        .completed slot ∈ marksOf config definitions past calls := by
    intro hnone hsuccess slot hbegan
    rcases (haccounted hsuccess.1).begun slot hbegan with hdone | hgone | hopen
    · exact hdone
    · exact absurd hgone (hnone slot)
    · rw [hsuccess.idle] at hopen
      cases hopen
  refine ⟨?_, ?_, hpending.distinct⟩
  · intro hnone hanswered
    refine ⟨hcompleted hnone, ?_, ?_, ?_, ?_⟩
    · intro slot hgone
      exact absurd hgone (hnone slot)
    · intro slot hopen hsuccess
      rw [hsuccess.idle] at hopen
      cases hopen
    · rintro slot (hgone | hopen)
      · exact absurd hgone (hnone slot)
      · exact hpending.finish hinvariant config hanswered hopen
    · intro name
      have hfinished := (hinvariant.finish config).1
      apply hfinished.settled
      intro own hown
      cases hown
  · intro hsuccess
    refine ⟨?_, fun hnone => hcompleted hnone hsuccess⟩
    intro hall slot hgone
    obtain ⟨hbegan, hnot⟩ := (haccounted hsuccess.1).dropped slot hgone
    exact hnot (hall slot hbegan)

end Invocations

/-- A guest that begins a transaction, runs a statement in it and leaves it open. -/
def sampleOpen : List GuestCall :=
  [⟨.begin .write "app" (some 3), false, sampleBounds⟩,
    ⟨.dbExecute 3 "touch" [] 1, false, sampleBounds⟩]

/-- The invocation fails, and its transaction is rolled back. -/
theorem explicit_completion_without_drops_sample :
    ExplicitCompletion sampleConfig
        (marksOf sampleConfig (fun _ => sampleDefinition) [] sampleOpen)
        (finalOf sampleConfig (fun _ => sampleDefinition) [] sampleOpen) ∧
      marksOf sampleConfig (fun _ => sampleDefinition) [] sampleOpen =
        [.began 1 "app" (some 2)] ∧
      (finalOf sampleConfig (fun _ => sampleDefinition) [] sampleOpen).host.databases.slots =
        [1] := by
  have hmarks : marksOf sampleConfig (fun _ => sampleDefinition) [] sampleOpen =
      [.began 1 "app" (some 2)] := by
    decide +kernel
  refine ⟨(explicit_completion_without_drops sampleConfig (fun _ => sampleDefinition) []
    sampleOpen).1 ?_ ?_, hmarks, by decide +kernel⟩
  · rw [hmarks]
    intro slot hmem
    cases List.mem_singleton.mp hmem
  · decide +kernel

/-- A guest that begins a transaction and drops its handle. -/
def sampleDrop : List GuestCall :=
  [⟨.begin .write "app" (some 3), false, sampleBounds⟩, ⟨.drop 3, false, sampleBounds⟩]

/-- The invocation is successful, with a transaction that its guest neither committed nor
rolled back. -/
theorem dropped_transaction_succeeds :
    (finalOf sampleConfig (fun _ => sampleDefinition) [] sampleDrop).Successful ∧
      marksOf sampleConfig (fun _ => sampleDefinition) [] sampleDrop =
        [.began 1 "app" (some 2), .dropped 1] ∧
      ¬ ExplicitCompletion sampleConfig
        (marksOf sampleConfig (fun _ => sampleDefinition) [] sampleDrop)
        (finalOf sampleConfig (fun _ => sampleDefinition) [] sampleDrop) := by
  have hrun : (finalOf sampleConfig (fun _ => sampleDefinition) [] sampleDrop).Successful ∧
      marksOf sampleConfig (fun _ => sampleDefinition) [] sampleDrop =
        [.began 1 "app" (some 2), .dropped 1] := by
    decide +kernel
  refine ⟨hrun.1, hrun.2, ?_⟩
  intro hexplicit
  apply hexplicit.dropped 1 _ hrun.1
  rw [hrun.2]
  decide

end Krit.Databases
