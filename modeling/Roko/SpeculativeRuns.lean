import Roko.GuardedRuns
import Roko.SpeculativeReads

/-!
# Speculative execution beside a changing fork

A kept result stays right while what it depends on is in its read set and unchanged.
The executor copies the fork without its balance check, takes storage from a baseline
that writes do not refresh, and leaves what is only read out of the read set; where none
of this matters, a speculative execution returns what an execution on the fork returns.
-/

namespace Roko

open HybridDb

variable {ext : Externals}

/-- The fork and the executor beside it. -/
structure Speculation where
  fork : ForkState
  executor : SpeculativeExecutor := {}

/-- A change of the fork is reported at once with the slots that it writes. -/
inductive SpeculationOp
  | execute (request : TransactionRequest)
  | mutate (next : ForkState) (writes : SlotRefs)
  | invalidateForBlock (blockNumber : UInt64)
  | invalidateForRequest (request : TransactionRequest)

namespace Speculation

def step (ext : Externals) (state : Speculation) : SpeculationOp → Speculation
  | .execute request =>
      { state with executor := (state.executor.execute ext state.fork request).1 }
  | .mutate next writes =>
      { fork := next, executor := state.executor.invalidateForWrites writes }
  | .invalidateForBlock blockNumber =>
      { state with executor := state.executor.invalidateForBlock blockNumber }
  | .invalidateForRequest request =>
      { state with executor := state.executor.invalidateForRequest ext request }

/-- What an execution in this state returns. -/
def returned (ext : Externals) (state : Speculation) (request : TransactionRequest) :
    Executed :=
  (state.executor.execute ext state.fork request).2.map fun kept =>
    (kept.result, kept.stateDiff)

/-- The result that is kept for a request. -/
def kept (ext : Externals) (state : Speculation) (request : TransactionRequest) :
    Option SpeculativeResult :=
  request.sender.bind fun sender =>
    (state.executor.prepareContext state.fork).cache.lookup
      (ext.keccak256 (request.keyBytes sender), state.fork.localBlockNumber)

/-- Changes of the fork are reported. -/
def AllReported (ext : Externals) (state : Speculation) : SpeculationOp → Prop
  | .mutate next writes => Reported ext writes.locations state.fork.dirtyEntries next.dirtyEntries
  | _ => True

/-- A new execution runs on storage that the fork has now, with a sender that covers what
is moved, and its outcome is determined by the slots that its diff names. -/
structure NewSafe (ext : Externals) (state : Speculation) (request : TransactionRequest) :
    Prop where
  fresh : ∀ context baseline,
    (state.executor.prepareContext state.fork).cowBaseline = some (context, baseline) →
      BaselineFresh baseline state.fork.dirtyEntries
  harmless : StrictHarmless ext state.fork request
  complete : ∀ outcome, request.transact ext state.fork = .ok outcome →
    Memo.Complete (AgreesOn ext) (outcomeIn ext state.fork.environment) state.fork.dirtyEntries
      request (readSetOf outcome.2).locations

/-- The environment of an execution goes with its block number and timestamp, and a
change of the fork records a balance slot only for tokens that no surviving result has
read. -/
def StepSafe (ext : Externals) (environment : SpeculativeContext → Environment)
    (state : Speculation) : SpeculationOp → Prop
  | .execute request =>
      state.fork.environment = environment (currentContext state.fork) ∧
        (state.kept ext request = none → NewSafe ext state request)
  | .mutate next writes =>
      ∀ entry ∈ (state.executor.invalidateForWrites writes).cache,
        ∀ address slot, (address, slot) ∈ entry.2.readSet →
          (next.dirtyEntries.entry address).erc20BalanceSlot =
            (state.fork.dirtyEntries.entry address).erc20BalanceSlot
  | _ => True

end Speculation

/-- The key is that of one of the requests. -/
def Asked (ext : Externals) (requests : Set TransactionRequest)
    (request : TransactionRequest) (key : B256 × UInt64) : Prop :=
  request ∈ requests ∧ ∃ sender, request.sender = some sender ∧
    key.1 = ext.keccak256 (request.keyBytes sender)

/-- No two of the requests have one hash, except for no recipient and the zero address. -/
def HashesApart (ext : Externals) (requests : Set TransactionRequest) : Prop :=
  Set.InjOn ext.keccak256
    { bytes | ∃ request ∈ requests, ∃ sender, request.sender = some sender ∧
      bytes = request.keyBytes sender }

/-- No two of the requests differ only between no recipient and the zero address. -/
def RecipientsApart (requests : Set TransactionRequest) : Prop :=
  ∀ first ∈ requests, ∀ second ∈ requests, SameShape first second →
    first.recipient = second.recipient

/-- The results of one context are justified in its environment. -/
structure KeptIn (ext : Externals) (requests : Set TransactionRequest)
    (environment : Environment) (context : SpeculativeContext) (entries : Entries)
    (cache : List ((B256 × UInt64) × SpeculativeResult)) : Prop where
  block : ∀ entry ∈ cache, entry.1.2 = context.blockNumber
  sound : Memo.Sound (AgreesOn ext) (outcomeIn ext environment) (Asked ext requests)
    (fun kept : SpeculativeResult => .ok (kept.result, kept.stateDiff))
    (fun kept => kept.readSet.locations) entries cache

theorem KeptIn.nil (ext : Externals) (requests : Set TransactionRequest)
    (environment : Environment) (context : SpeculativeContext) (entries : Entries) :
    KeptIn ext requests environment context entries [] :=
  ⟨fun _ member => absurd member List.not_mem_nil, Memo.Sound.nil⟩

theorem KeptIn.filter {requests : Set TransactionRequest} {environment : Environment}
    {context : SpeculativeContext} {entries : Entries}
    {cache : List ((B256 × UInt64) × SpeculativeResult)}
    (kept : KeptIn ext requests environment context entries cache)
    (keep : (B256 × UInt64) × SpeculativeResult → Bool) :
    KeptIn ext requests environment context entries (cache.filter keep) :=
  ⟨fun entry member => kept.block entry (List.mem_filter.mp member).1,
    kept.sound.filter keep⟩

/-- All kept results belong to the last context. -/
def CacheKept (ext : Externals) (requests : Set TransactionRequest)
    (environment : SpeculativeContext → Environment) (state : Speculation) : Prop :=
  match state.executor.cacheContext with
  | none => state.executor.cache = []
  | some context =>
      KeptIn ext requests (environment context) context state.fork.dirtyEntries
        state.executor.cache

section Steps

variable {requests : Set TransactionRequest}
  {environment : SpeculativeContext → Environment} {state : Speculation}

/-- After the preparation the kept results belong to the present context. -/
theorem keptIn_prepareContext (held : CacheKept ext requests environment state) :
    KeptIn ext requests (environment (currentContext state.fork))
      (currentContext state.fork) state.fork.dirtyEntries
      (state.executor.prepareContext state.fork).cache := by
  unfold CacheKept at held
  unfold SpeculativeExecutor.prepareContext
  dsimp only
  cases last : state.executor.cacheContext with
  | none =>
      rw [last] at held
      dsimp only at held
      rw [held, ite_self]
      exact KeptIn.nil ext requests _ _ _
  | some context =>
      rw [last] at held
      dsimp only at held
      by_cases same : context = currentContext state.fork
      · subst same
        simpa using held
      · simpa [same] using KeptIn.nil ext requests _ _ _

/-- The ways an execution can go: the request has no sender, its result is kept, it
fails, or its result is computed and kept. -/
inductive Execution (ext : Externals) (executor : SpeculativeExecutor) (state : ForkState)
    (request : TransactionRequest)
    (returned : SpeculativeExecutor × Except MirageError SpeculativeResult) : Prop
  | rejected (unsent : request.sender = none)
      (same : returned = (executor.prepareContext state, .error (.invalidParams "missing from")))
  | cached (sender : Address) (cached : SpeculativeResult)
      (sent : request.sender = some sender)
      (found : (executor.prepareContext state).cache.lookup
        (ext.keccak256 (request.keyBytes sender), state.localBlockNumber) = some cached)
      (same : returned = (executor.prepareContext state, .ok cached))
  | computed (sender : Address) (next : SpeculativeExecutor) (baseline : SlotValues)
      (sent : request.sender = some sender)
      (missed : (executor.prepareContext state).cache.lookup
        (ext.keccak256 (request.keyBytes sender), state.localBlockNumber) = none)
      (branched : (executor.prepareContext state).ensureCowBaseline state = (next, baseline))
      (same : returned =
        match request.transact ext
            (buildSpeculativeState state (CowState.branch baseline)) with
        | .error failure => (next, .error failure)
        | .ok (result, stateDiff) =>
            let kept := { result, stateDiff, readSet := readSetOf stateDiff }
            ({ next with
                cache := ((ext.keccak256 (request.keyBytes sender), state.localBlockNumber),
                  kept) :: next.cache },
              .ok kept))

theorem execution (ext : Externals) (executor : SpeculativeExecutor) (state : ForkState)
    (request : TransactionRequest) :
    Execution ext executor state request (executor.execute ext state request) := by
  unfold SpeculativeExecutor.execute
  cases sent : request.sender with
  | none => exact .rejected sent rfl
  | some sender =>
      dsimp only
      cases found : (executor.prepareContext state).cache.lookup
          (ext.keccak256 (request.keyBytes sender), state.localBlockNumber) with
      | some cached =>
          refine .cached sender cached sent found ?_
          unfold speculativeKey
          unfold TransactionRequest.keyBytes at found
          rw [found]
      | none =>
          refine .computed sender _ _ sent found rfl ?_
          unfold speculativeKey TransactionRequest.transact
          rw [sent]
          unfold TransactionRequest.keyBytes at found ⊢
          rw [found]
          rfl

/-- The baseline that an execution branches from has the present storage. -/
theorem ensureCowBaseline_fresh {executor : SpeculativeExecutor} {state : ForkState}
    (fresh : ∀ context baseline, executor.cowBaseline = some (context, baseline) →
      BaselineFresh baseline state.dirtyEntries) :
    BaselineFresh (executor.ensureCowBaseline state).2 state.dirtyEntries ∧
      (executor.ensureCowBaseline state).1.cache = executor.cache ∧
      (executor.ensureCowBaseline state).1.cacheContext = executor.cacheContext := by
  unfold SpeculativeExecutor.ensureCowBaseline
  dsimp only
  split
  case h_1 context baseline found =>
    exact ⟨fresh context baseline (Option.filter_eq_some_iff.mp found).1, rfl, rfl⟩
  case h_2 => exact ⟨find_storages state.dirtyEntries, rfl, rfl⟩

/-- A kept result is the outcome of the request that it is found for. -/
theorem transact_of_kept (reads : DependsOnReads ext) (hashes : HashesApart ext requests)
    (recipients : RecipientsApart requests) {fork : ForkState}
    {context : SpeculativeContext} {cache : List ((B256 × UInt64) × SpeculativeResult)}
    (kept : KeptIn ext requests fork.environment context fork.dirtyEntries cache)
    {request : TransactionRequest} (asked : request ∈ requests) {sender : Address}
    (sent : request.sender = some sender) {blockNumber : UInt64} {cached : SpeculativeResult}
    (found : cache.lookup (ext.keccak256 (request.keyBytes sender), blockNumber) =
      some cached) :
    request.transact ext fork = .ok (cached.result, cached.stateDiff) := by
  rw [← outcomeIn_entries reads fork request]
  apply kept.sound.hit found
  rintro other ⟨member, otherSender, otherSent, same⟩
  have bytes : request.keyBytes sender = other.keyBytes otherSender :=
    hashes ⟨request, asked, sender, sent, rfl⟩ ⟨other, member, otherSender, otherSent, rfl⟩
      same
  have shape := TransactionRequest.sameShape_of_keyBytes sent otherSent bytes.symm
  exact TransactionRequest.transact_congr_request ext _ shape
    (recipients request asked other member shape)

/-- An execution returns what the fork would return, and keeps what it computes. -/
theorem execute_exact (reads : DependsOnReads ext) (hashes : HashesApart ext requests)
    (recipients : RecipientsApart requests)
    (held : CacheKept ext requests environment state) {request : TransactionRequest}
    (asked : request ∈ requests)
    (safe : state.StepSafe ext environment (.execute request)) :
    state.returned ext request = request.transact ext state.fork ∧
      CacheKept ext requests environment (state.step ext (.execute request)) := by
  obtain ⟨present, new⟩ := safe
  have prepared := keptIn_prepareContext held
  unfold Speculation.returned Speculation.step CacheKept
  dsimp only
  cases execution ext state.executor state.fork request with
  | rejected unsent same =>
      rw [same]
      refine ⟨?_, prepared⟩
      unfold TransactionRequest.transact
      rw [unsent]
      rfl
  | cached sender cached sent found same =>
      rw [same]
      refine ⟨?_, prepared⟩
      rw [← present] at prepared
      exact (transact_of_kept reads hashes recipients prepared asked sent found).symm
  | computed sender next baseline sent missed branched same =>
      have unkept : state.kept ext request = none := by
        unfold Speculation.kept
        rw [sent]
        exact missed
      obtain ⟨fresh, harmless, complete⟩ := new unkept
      have branch := ensureCowBaseline_fresh fresh
      rw [branched] at branch
      obtain ⟨freshBaseline, sameCache, sameContext⟩ := branch
      have context : next.cacheContext = some (currentContext state.fork) := sameContext
      rw [transact_buildSpeculativeState reads freshBaseline harmless] at same
      rw [same]
      cases outcome : request.transact ext state.fork with
      | error failure =>
          refine ⟨rfl, ?_⟩
          dsimp only
          rw [context, sameCache]
          exact prepared
      | ok computed =>
          refine ⟨rfl, ?_⟩
          dsimp only
          rw [context, sameCache]
          refine ⟨List.forall_mem_cons.mpr ⟨rfl, prepared.block⟩, ?_⟩
          have determined := complete computed outcome
          have result := outcomeIn_entries reads state.fork request
          rw [present] at determined result
          exact prepared.sound.cons (agreement_agreesOn ext) ⟨asked, sender, sent, rfl⟩
            (result.trans outcome) determined

/-- A filtered cache, in the same context. -/
theorem CacheKept.filter (held : CacheKept ext requests environment state)
    (keep : (B256 × UInt64) × SpeculativeResult → Bool) :
    CacheKept ext requests environment
      { state with executor := { state.executor with
          cache := state.executor.cache.filter keep } } := by
  unfold CacheKept at held ⊢
  dsimp only
  cases last : state.executor.cacheContext with
  | none =>
      rw [last] at held
      dsimp only at held ⊢
      rw [held]
      rfl
  | some context =>
      rw [last] at held
      exact held.filter keep

theorem cacheKept_mutate (held : CacheKept ext requests environment state)
    {next : ForkState} {writes : SlotRefs}
    (reported : Reported ext writes.locations state.fork.dirtyEntries next.dirtyEntries)
    (safe : state.StepSafe ext environment (.mutate next writes)) :
    CacheKept ext requests environment (state.step ext (.mutate next writes)) := by
  have filtered := held.filter fun entry =>
    !entry.2.readSet.any fun location => writes.contains location
  have agree : ∀ entry ∈ (state.executor.invalidateForWrites writes).cache,
      AgreesOn ext entry.2.readSet.locations state.fork.dirtyEntries next.dirtyEntries := by
    intro entry member
    refine reported.agreesOn (fun location read written => ?_) (safe entry member)
    have disjoint := (List.mem_filter.mp member).2
    rw [Bool.not_eq_true', List.any_eq_false] at disjoint
    exact disjoint location read (List.contains_iff_mem.mpr written)
  unfold Speculation.step SpeculativeExecutor.invalidateForWrites CacheKept at *
  dsimp only at filtered agree ⊢
  cases last : state.executor.cacheContext with
  | none =>
      rw [last] at filtered
      exact filtered
  | some context =>
      rw [last] at filtered
      exact ⟨filtered.block, filtered.sound.next (agreement_agreesOn ext) agree⟩

theorem cacheKept_invalidateForBlock (held : CacheKept ext requests environment state)
    (blockNumber : UInt64) :
    CacheKept ext requests environment
      (state.step ext (.invalidateForBlock blockNumber)) := by
  have filtered := held.filter fun entry => entry.1.2 ≠ blockNumber
  unfold Speculation.step SpeculativeExecutor.invalidateForBlock CacheKept at *
  dsimp only at filtered ⊢
  cases last : state.executor.cacheContext with
  | none =>
      rw [last] at filtered
      exact filtered
  | some context =>
      rw [last] at filtered held
      by_cases dropped : context.blockNumber = blockNumber
      · -- Every kept result is of the dropped block.
        have emptied : (some context).filter (fun context : SpeculativeContext =>
            decide (context.blockNumber ≠ blockNumber)) = none := by
          simp [Option.filter, dropped]
        rw [emptied]
        refine List.filter_eq_nil_iff.mpr fun entry member => ?_
        have block := held.block entry member
        simp [block, dropped]
      · have left : (some context).filter (fun context : SpeculativeContext =>
            decide (context.blockNumber ≠ blockNumber)) = some context := by
          simp [Option.filter, dropped]
        rw [left]
        exact filtered

theorem cacheKept_invalidateForRequest (held : CacheKept ext requests environment state)
    (request : TransactionRequest) :
    CacheKept ext requests environment
      (state.step ext (.invalidateForRequest request)) := by
  unfold Speculation.step SpeculativeExecutor.invalidateForRequest
  dsimp only
  cases request.sender with
  | none => exact held
  | some sender => exact held.filter _

/-- One step keeps the kept results right. -/
theorem cacheKept_step (reads : DependsOnReads ext) (hashes : HashesApart ext requests)
    (recipients : RecipientsApart requests)
    (held : CacheKept ext requests environment state) {op : SpeculationOp}
    (asked : ∀ request, op = .execute request → request ∈ requests)
    (reported : state.AllReported ext op) (safe : state.StepSafe ext environment op) :
    CacheKept ext requests environment (state.step ext op) := by
  cases op with
  | execute request =>
      exact (execute_exact reads hashes recipients held (asked request rfl) safe).2
  | mutate next writes => exact cacheKept_mutate held reported safe
  | invalidateForBlock blockNumber => exact cacheKept_invalidateForBlock held blockNumber
  | invalidateForRequest request => exact cacheKept_invalidateForRequest held request

end Steps

theorem cacheKept_start {requests : Set TransactionRequest}
    {environment : SpeculativeContext → Environment} (start : ForkState) :
    CacheKept ext requests environment { fork := start } :=
  rfl

/-- The requests that a run executes. -/
def executedIn (ops : List SpeculationOp) : Set TransactionRequest :=
  { request | .execute request ∈ ops }

/-- In a run whose steps are safe each execution returns what the fork would return. -/
theorem speculation_exact (reads : DependsOnReads ext)
    (environment : SpeculativeContext → Environment) (start : ForkState)
    {ops : List SpeculationOp} (hashes : HashesApart ext (executedIn ops))
    (reported : GuardedRun.Guarded (Speculation.step ext) (Speculation.AllReported ext)
      { fork := start } ops)
    (recipients : RecipientsApart (executedIn ops))
    (safe : GuardedRun.Guarded (Speculation.step ext)
      (Speculation.StepSafe ext environment) { fork := start } ops) :
    ∀ pair ∈ GuardedRun.steps (Speculation.step ext) { fork := start } ops,
      ∀ request, pair.2 = .execute request →
        pair.1.returned ext request = request.transact ext pair.1.fork := by
  have executed : ∀ pair ∈ GuardedRun.steps (Speculation.step ext) { fork := start } ops,
      ∀ request, pair.2 = .execute request → request ∈ executedIn ops := by
    intro pair member request isExecute
    obtain ⟨earlier, later, split, -⟩ := GuardedRun.mem_steps_iff.mp member
    have among : pair.2 ∈ ops := by
      rw [split]
      exact List.mem_append_right earlier List.mem_cons_self
    rw [isExecute] at among
    exact among
  have kept := GuardedRun.invariant_of_guarded (Speculation.step ext)
    (fun state op => (∀ request, op = .execute request → request ∈ executedIn ops) ∧
      state.AllReported ext op ∧ state.StepSafe ext environment op)
    (CacheKept ext (executedIn ops) environment)
    (fun state op held guarded =>
      cacheKept_step reads hashes recipients held guarded.1 guarded.2.1 guarded.2.2)
    (cacheKept_start start)
    fun pair member => ⟨executed pair member, reported pair member, safe pair member⟩
  intro pair member request isExecute
  have stepSafe := safe pair member
  rw [isExecute] at stepSafe
  have held := kept pair.1 (GuardedRun.mem_states_of_mem_steps member).1
  exact (execute_exact reads hashes recipients held
    (executed pair member request isExecute) stepSafe).1

/-- A plain transfer on a fork without stored slots is safe. -/
theorem newSafe_plain (reads : DependsOnReads ext) {state : Speculation}
    (unstored : ∀ address : Address, (state.fork.dirtyEntries.entry address).storage = ∅)
    {request : TransactionRequest} {sender : Address}
    (sent : request.sender = some sender) (plain : (request.data.getD []).isEmpty = true)
    (harmless : StrictHarmless ext state.fork request) :
    state.NewSafe ext request := by
  refine ⟨fun context baseline _ address slot value stored => ?_, harmless,
    fun outcome completes => ?_⟩
  · rw [unstored, Std.ExtTreeMap.getElem?_empty] at stored
    cases stored
  · rw [← outcomeIn_entries reads] at completes
    exact complete_valueTransfer ext _ _ sent plain completes

theorem hashesApart_of_single {requests : Set TransactionRequest}
    {only : TransactionRequest} (single : ∀ request ∈ requests, request = only) :
    HashesApart ext requests := by
  intro first firstKey second secondKey _
  obtain ⟨request, member, sender, sent, firstIs⟩ := firstKey
  obtain ⟨other, otherMember, otherSender, otherSent, secondIs⟩ := secondKey
  rw [single request member] at sent firstIs
  rw [single other otherMember] at otherSent secondIs
  rw [sent] at otherSent
  cases otherSent
  rw [firstIs, secondIs]

/-- No slot is stored and no balance slot is recorded. -/
def Unstored (entries : Entries) : Prop :=
  ∀ address : Address, (entries.entry address).storage = ∅ ∧
    (entries.entry address).erc20BalanceSlot = none

theorem unstored_setBalance {db : HybridDb} (unstored : Unstored db.dirty.accounts)
    (account : Address) (balance : U256) :
    Unstored (db.setBalance account balance).dirty.accounts := by
  intro address
  have entry : Entries.entry (db.setBalance account balance).dirty.accounts address = _ :=
    account_modify db account address fun account => { account with balance := some balance }
  rw [entry]
  split
  case isTrue => exact unstored account
  case isFalse => exact unstored address

/-- A transfer of three from the first account. -/
def threeToTwo : TransactionRequest :=
  { sender := some 1, recipient := some 2, gas := none, value := some 3, data := none }

theorem stepSafe_threeToTwo {state : Speculation} {environment : Environment}
    (present : state.fork.environment = environment)
    (unstored : Unstored state.fork.dirtyEntries) {balance : U256}
    (override : (state.fork.db.account 1).balance = some balance) (enough : 3 ≤ balance) :
    state.StepSafe EvmExecutor.mappingExternals (fun _ => environment)
      (.execute threeToTwo) := by
  refine ⟨present, fun _ => newSafe_plain (fun _ _ _ _ _ => rfl)
    (fun address => (unstored address).1) rfl rfl ?_⟩
  rintro - sender sent
  cases sent
  intro data read
  rw [balance_of_info read override]
  exact enough

/-- The fork after another account was given a balance, and after the sender was. -/
def otherFunded : ForkState :=
  { EvmExecutor.strictFork with db := EvmExecutor.strictFork.db.setBalance 3 7 }

def senderFunded : ForkState :=
  { otherFunded with db := otherFunded.db.setBalance 1 9 }

/-- The transfer is executed, found again after a change of another account, and executed
again after a change of its sender. -/
def transferOps : List SpeculationOp :=
  [.execute threeToTwo, .mutate otherFunded [(3, 0)], .execute threeToTwo,
    .mutate senderFunded [(1, 0)], .execute threeToTwo]

theorem executedIn_transferOps {request : TransactionRequest}
    (member : request ∈ executedIn transferOps) : request = threeToTwo := by
  simpa [executedIn, transferOps] using member

theorem speculation_exact_transferOps :
    RecipientsApart (executedIn transferOps) ∧
      ∀ pair ∈ GuardedRun.steps (Speculation.step EvmExecutor.mappingExternals)
        { fork := EvmExecutor.strictFork } transferOps,
        ∀ request, pair.2 = .execute request →
          pair.1.returned EvmExecutor.mappingExternals request =
            request.transact EvmExecutor.mappingExternals pair.1.fork := by
  have recipients : RecipientsApart (executedIn transferOps) := by
    intro first member second otherMember _
    rw [executedIn_transferOps member, executedIn_transferOps otherMember]
  have unstored : Unstored EvmExecutor.strictFork.dirtyEntries := by
    refine unstored_setBalance (fun address => ?_) 1 5
    unfold Entries.entry
    rw [Std.ExtTreeMap.getElem?_empty]
    exact ⟨rfl, rfl⟩
  have unstoredOther : Unstored otherFunded.dirtyEntries := unstored_setBalance unstored 3 7
  have unstoredSender : Unstored senderFunded.dirtyEntries :=
    unstored_setBalance unstoredOther 1 9
  refine ⟨recipients, ?_⟩
  apply speculation_exact (fun _ _ _ _ _ => rfl)
    (fun _ => EvmExecutor.strictFork.environment)
  · exact hashesApart_of_single fun _ => executedIn_transferOps
  · unfold transferOps
    simp only [GuardedRun.guarded_cons]
    exact ⟨trivial, reported_setBalance _ EvmExecutor.strictFork.db 3 7, trivial,
      reported_setBalance _ otherFunded.db 1 9, trivial, GuardedRun.guarded_nil _⟩
  · exact recipients
  · unfold transferOps
    simp only [GuardedRun.guarded_cons]
    refine ⟨stepSafe_threeToTwo rfl unstored rfl (by decide), ?_,
      stepSafe_threeToTwo rfl unstoredOther rfl (by decide), ?_,
      stepSafe_threeToTwo rfl unstoredSender rfl (by decide), GuardedRun.guarded_nil _⟩
    · exact fun entry _ address slot _ =>
        (unstoredOther address).2.trans (unstored address).2.symm
    · exact fun entry _ address slot _ =>
        (unstoredSender address).2.trans (unstoredOther address).2.symm

/-- The clone does not check the balance of a sender of seven who has five. -/
theorem speculation_overspends :
    ¬ ∀ (ext : Externals) (start : ForkState) (ops : List SpeculationOp),
      DependsOnReads ext → HashesApart ext (executedIn ops) →
      GuardedRun.Guarded (Speculation.step ext) (Speculation.AllReported ext)
        { fork := start } ops →
      ∀ pair ∈ GuardedRun.steps (Speculation.step ext) { fork := start } ops,
        ∀ request, pair.2 = .execute request →
          pair.1.returned ext request = request.transact ext pair.1.fork := by
  intro claim
  let sevenToTwo : TransactionRequest :=
    { sender := some 1, recipient := some 2, gas := none, value := some 7, data := none }
  have single : ∀ request ∈ executedIn [.execute sevenToTwo], request = sevenToTwo := by
    intro request member
    simpa [executedIn] using member
  have right := claim EvmExecutor.mappingExternals EvmExecutor.strictFork
    [.execute sevenToTwo] (fun _ _ _ _ _ => rfl) (hashesApart_of_single single)
    ((GuardedRun.guarded_cons _ _ _).mpr ⟨trivial, GuardedRun.guarded_nil _⟩) _
    List.mem_cons_self sevenToTwo rfl
  have direct : sevenToTwo.transact EvmExecutor.mappingExternals EvmExecutor.strictFork =
      .error (.unsupported "insufficient balance") := by
    rfl
  rw [direct] at right
  cases right

end Roko
