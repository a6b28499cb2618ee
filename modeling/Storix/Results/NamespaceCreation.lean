import Storix.Namespace.NamespaceService

/-! # One namespace for one creation key

The receipt of a created namespace commits with it, so the key creates no other one. The
receipt of a conflict is a statement of its own: a conflict that is answered while the key
already created a namespace contradicts the receipt. -/

namespace Storix

open Foundation

variable {host : NamespaceHost} {requests : Nat → CreateNamespaceRequest}
  {system next : NamespaceSystem} {action : NamespaceAction}

/-! ## What a step does -/

structure Justified (host : NamespaceHost) (request : CreateNamespaceRequest)
    (receipts : OrderedMap JsString IdempotencyKeyEntity) (phase : CreatePhase) : Prop where
  created : ∀ status body, phase = .answered (.ok (status, body)) →
    status = 201 ∧ receipts.get request.idempotencyKey =
      some ⟨request.requestHash host, 201, body⟩
  refused : ∀ name, phase = .answered (.error (.alreadyExists name)) →
    ∃ receipt, receipts.get request.idempotencyKey = some receipt ∧
      ¬(receipt.requestHash = request.requestHash host ∧ receipt.responseStatus = 201)

theorem justified_of_other {request : CreateNamespaceRequest}
    {receipts : OrderedMap JsString IdempotencyKeyEntity} {phase : CreatePhase}
    (notCreated : ∀ status body, phase ≠ .answered (.ok (status, body)))
    (notRefused : ∀ name, phase ≠ .answered (.error (.alreadyExists name))) :
    Justified host request receipts phase where
  created := fun status body isPhase => absurd isPhase (notCreated status body)
  refused := fun name isPhase => absurd isPhase (notRefused name)

def KnownStatuses (receipts : OrderedMap JsString IdempotencyKeyEntity) : Prop :=
  ∀ key receipt, receipts.get key = some receipt →
    receipt.responseStatus = 201 ∨ receipt.responseStatus = 409

theorem justified_of_receipt {request : CreateNamespaceRequest}
    {receipts : OrderedMap JsString IdempotencyKeyEntity} {receipt : IdempotencyKeyEntity}
    (found : receipts.get request.idempotencyKey = some receipt)
    (sameHash : receipt.requestHash = request.requestHash host) :
    (receipt.responseStatus = 201 →
      Justified host request receipts
        (.answered (.ok (receipt.responseStatus, receipt.responseBody)))) ∧
    (receipt.responseStatus = 409 →
      Justified host request receipts (.answered (.error (.alreadyExists request.name)))) := by
  constructor
  · intro isCreated
    refine ⟨fun status body isPhase => ?_, fun name isPhase => ?_⟩
    · cases isPhase
      refine ⟨isCreated, ?_⟩
      rw [found, ← sameHash, ← isCreated]
    · cases isPhase
  · intro isConflict
    refine ⟨fun status body isPhase => ?_, fun name _ => ⟨receipt, found, ?_⟩⟩
    · cases isPhase
    · rw [isConflict]
      simp

theorem withoutWinner_justified {request : CreateNamespaceRequest}
    {receipts : OrderedMap JsString IdempotencyKeyEntity} (error : NamespaceError) :
    Justified host request receipts (withoutWinner error) := by
  apply justified_of_other
  · intro status body
    cases error <;> simp [withoutWinner]
  · intro name
    cases error <;> simp [withoutWinner]

theorem afterLookup_justified {request : CreateNamespaceRequest}
    {receipts : OrderedMap JsString IdempotencyKeyEntity} (known : KnownStatuses receipts) :
    Justified host request receipts
      (afterLookup host request (receipts.get request.idempotencyKey)) := by
  unfold afterLookup
  split
  · rename_i receipt found
    split
    · exact justified_of_other (fun _ _ => by simp) (fun _ => by simp)
    · rename_i sameHash
      have cases := justified_of_receipt found (not_not.mp sameHash)
      split
      · rename_i isConflict
        exact cases.2 isConflict
      · rename_i notConflict
        exact cases.1 ((known _ _ found).resolve_right notConflict)
  · split
    · exact justified_of_other (fun _ _ => by simp) (fun _ => by simp)
    · split
      · exact justified_of_other (fun _ _ => by simp) (fun _ => by simp)
      · exact justified_of_other (fun _ _ => by simp) (fun _ => by simp)

theorem afterFailure_justified {request : CreateNamespaceRequest}
    {receipts : OrderedMap JsString IdempotencyKeyEntity} (error : NamespaceError) :
    Justified host request receipts
      (afterFailure host request error (receipts.get request.idempotencyKey)) := by
  unfold afterFailure
  split
  · rename_i receipt found
    split
    · exact justified_of_other (fun _ _ => by simp) (fun _ => by simp)
    · rename_i sameHash
      have cases := justified_of_receipt found (not_not.mp sameHash)
      split
      · rename_i isCreated
        exact cases.1 isCreated
      · split
        · rename_i isConflict
          exact cases.2 isConflict
        · exact withoutWinner_justified error
  · exact withoutWinner_justified error

structure Provisioned (host : NamespaceHost) (request : CreateNamespaceRequest)
    (old new : NamespaceTables) (entity : NamespaceEntity) (response : NamespaceResponse) :
    Prop where
  freeName : ∀ name, request.name = some name → old.hasActiveName name = false
  freeKey : old.receipts.get request.idempotencyKey = none
  isResponse : toNamespaceResponse entity request.globalLimits = some response
  name : entity.name = request.name
  namespaces : new.namespaces = old.namespaces ++ [entity]
  receipts : new.receipts = old.receipts.set request.idempotencyKey
    ⟨request.requestHash host, 201, .created response⟩

theorem createWithRoot_cases {request : CreateNamespaceRequest} {tables later : NamespaceTables}
    {uuid now : Nat} {response : NamespaceResponse}
    (result : tables.createWithRoot host request uuid now = .ok (response, later)) :
    Provisioned host request tables later (request.entity uuid now) response := by
  unfold NamespaceTables.createWithRoot at result
  dsimp only at result
  split at result
  · cases result
  · rename_i freeName
    split at result
    · cases result
    · rename_i isResponse
      split at result
      · cases result
      · rename_i freeKey
        cases result
        refine ⟨fun name isName => ?_, ?_, isResponse, rfl, rfl, rfl⟩
        · rw [isName] at freeName
          simpa using freeName
        · simpa using freeKey

/-- Every step moves one request with the tables as they are, or commits a namespace, or
stores the receipt of a conflict, or ends an active namespace. -/
theorem next_cases (known : KnownStatuses system.tables.receipts)
    (taken : system.next host requests action = some next) :
    (∃ id phase drawn, Justified host (requests id) system.tables.receipts phase ∧
      next = { system with drawn := drawn }.move id phase) ∨
    (∃ id tables creation drawn phase,
      Provisioned host (requests id) system.tables tables creation.entity creation.response ∧
      creation.request = id ∧
      (phase = .answered (.ok (201, .created creation.response)) ∨ phase = .failed .unexpected) ∧
      next = (⟨tables, system.phase, drawn, system.created ++ [creation]⟩ : NamespaceSystem).move id
        phase) ∨
    (∃ id now fate, action = .statement id now fate ∧ system.phase id = .recording ∧
      next = ({ system with
        tables := if fate = Fate.failed then system.tables
          else recordConflict host system.tables (requests id) }).move id
        (.answered (.error (.alreadyExists (requests id).name)))) ∨
    ∃ id old new, new ≠ .active ∧ next = system.setStatus id old new := by
  cases action with
  | crash id =>
      cases taken
      exact .inl ⟨id, .gone, system.drawn,
        justified_of_other (fun _ _ => by simp) (fun _ => by simp), rfl⟩
  | acceptDeletion id =>
      cases taken
      exact .inr (.inr (.inr ⟨id, _, _, by decide, rfl⟩))
  | completeDeletion id =>
      cases taken
      exact .inr (.inr (.inr ⟨id, _, _, by decide, rfl⟩))
  | statement id now fate =>
      unfold NamespaceSystem.next NamespaceSystem.perform at taken
      dsimp only at taken
      split at taken
      · split at taken
        · cases taken
          exact .inl ⟨id, _, system.drawn, afterLookup_justified known, rfl⟩
        · cases taken
          exact .inl ⟨id, _, system.drawn,
            justified_of_other (fun _ _ => by simp) (fun _ => by simp), rfl⟩
      · cases taken
        unfold NamespaceSystem.provision
        dsimp only
        split
        · exact .inl ⟨id, _, system.drawn + 1,
            justified_of_other (fun _ _ => by simp) (fun _ => by simp), rfl⟩
        · split
          · exact .inl ⟨id, _, system.drawn + 1,
              justified_of_other (fun _ _ => by simp) (fun _ => by simp), rfl⟩
          · rename_i response tables result
            refine .inr (.inl ⟨id, tables, ⟨id, _, response⟩, system.drawn + 1, _,
              createWithRoot_cases result, rfl, ?_, rfl⟩)
            split
            · exact .inl rfl
            · exact .inr rfl
      · split at taken
        · cases taken
          exact .inl ⟨id, _, system.drawn, afterFailure_justified _, rfl⟩
        · cases taken
          exact .inl ⟨id, _, system.drawn, withoutWinner_justified _, rfl⟩
      · rename_i isRecording
        cases taken
        exact .inr (.inr (.inl ⟨id, now, fate, rfl, isRecording, rfl⟩))
      · cases taken
      · cases taken

/-! ## Receipts stay -/

theorem get_recordConflict {tables : NamespaceTables} {request : CreateNamespaceRequest}
    {key : JsString} {receipt : IdempotencyKeyEntity}
    (found : (recordConflict host tables request).receipts.get key = some receipt) :
    tables.receipts.get key = some receipt ∨
      key = request.idempotencyKey ∧ tables.receipts.get key = none ∧
        receipt.responseStatus = 409 := by
  unfold recordConflict at found
  split at found
  · exact .inl found
  · rename_i isFree
    rw [OrderedMap.get_set] at found
    split at found
    · rename_i isKey
      cases found
      rw [isKey]
      exact .inr ⟨rfl, by simpa using isFree, rfl⟩
    · exact .inl found

theorem recordConflict_keeps {tables : NamespaceTables} {request : CreateNamespaceRequest}
    {key : JsString} {receipt : IdempotencyKeyEntity}
    (found : tables.receipts.get key = some receipt) :
    (recordConflict host tables request).receipts.get key = some receipt := by
  unfold recordConflict
  split
  · exact found
  · rename_i isFree
    have other : key ≠ request.idempotencyKey := by
      intro isKey
      rw [isKey] at found
      simp [found] at isFree
    rw [OrderedMap.get_set, if_neg other]
    exact found

theorem recordConflict_stored (host : NamespaceHost) (tables : NamespaceTables)
    (request : CreateNamespaceRequest) :
    ∃ receipt, (recordConflict host tables request).receipts.get request.idempotencyKey =
      some receipt := by
  unfold recordConflict
  split
  · rename_i isTaken
    exact Option.isSome_iff_exists.mp isTaken
  · exact ⟨_, by rw [OrderedMap.get_set, if_pos rfl]⟩

theorem Provisioned.keeps {request : CreateNamespaceRequest} {old new : NamespaceTables}
    {entity : NamespaceEntity} {response : NamespaceResponse}
    (provisioned : Provisioned host request old new entity response) {key : JsString}
    {receipt : IdempotencyKeyEntity} (found : old.receipts.get key = some receipt) :
    new.receipts.get key = some receipt := by
  have other : key ≠ request.idempotencyKey := by
    intro isKey
    rw [isKey, provisioned.freeKey] at found
    cases found
  rw [provisioned.receipts, OrderedMap.get_set, if_neg other]
  exact found

theorem next_keeps (known : KnownStatuses system.tables.receipts)
    (taken : system.next host requests action = some next) {key : JsString}
    {receipt : IdempotencyKeyEntity} (found : system.tables.receipts.get key = some receipt) :
    next.tables.receipts.get key = some receipt := by
  rcases next_cases known taken with ⟨id, phase, drawn, _, rfl⟩ |
    ⟨id, tables, creation, drawn, phase, provisioned, _, _, rfl⟩ |
    ⟨id, now, fate, _, _, rfl⟩ | ⟨id, old, new, _, rfl⟩
  · exact found
  · exact provisioned.keeps found
  · unfold NamespaceSystem.move
    dsimp only
    split
    · exact found
    · exact recordConflict_keeps found
  · exact found

/-! ## The books -/

structure CreationBooks (host : NamespaceHost) (requests : Nat → CreateNamespaceRequest)
    (system : NamespaceSystem) : Prop where
  names : NamespaceSystem.DistinctNames system.tables.namespaces
  keys : (system.created.map fun creation => (requests creation.request).idempotencyKey).Nodup
  rows : ∀ creation ∈ system.created,
    ∃ row ∈ system.tables.namespaces, row.id = creation.entity.id
  stored : ∀ creation ∈ system.created,
    toNamespaceResponse creation.entity (requests creation.request).globalLimits =
        some creation.response ∧
      system.tables.receipts.get (requests creation.request).idempotencyKey =
        some ⟨(requests creation.request).requestHash host, 201, .created creation.response⟩
  known : KnownStatuses system.tables.receipts
  origin : ∀ key receipt, system.tables.receipts.get key = some receipt →
    receipt.responseStatus = 201 →
    ∃ creation ∈ system.created, (requests creation.request).idempotencyKey = key
  answers : ∀ id status body, system.phase id = .answered (.ok (status, body)) →
    status = 201 ∧ system.tables.receipts.get (requests id).idempotencyKey =
      some ⟨(requests id).requestHash host, 201, body⟩

namespace CreationBooks

/-- Moving a request whose namespace, if it answers with one, has its receipt. -/
theorem move (books : CreationBooks host requests system) {id : Nat} {phase : CreatePhase}
    (drawn : Nat)
    (created : ∀ status body, phase = .answered (.ok (status, body)) →
      status = 201 ∧ system.tables.receipts.get (requests id).idempotencyKey =
        some ⟨(requests id).requestHash host, 201, body⟩) :
    CreationBooks host requests ({ system with drawn := drawn }.move id phase) where
  names := books.names
  keys := books.keys
  rows := books.rows
  stored := books.stored
  known := books.known
  origin := books.origin
  answers := by
    intro other status body isPhase
    unfold NamespaceSystem.move at isPhase
    dsimp only at isPhase
    by_cases same : other = id
    · subst same
      rw [Function.update_self] at isPhase
      exact created status body isPhase
    · rw [Function.update_of_ne same] at isPhase
      exact books.answers other status body isPhase

theorem names_append {namespaces : List NamespaceEntity} {entity : NamespaceEntity}
    (names : NamespaceSystem.DistinctNames namespaces)
    (free : ∀ name, entity.name = some name → ∀ row ∈ namespaces,
      row.status = .active → row.name ≠ some name) :
    NamespaceSystem.DistinctNames (namespaces ++ [entity]) := by
  refine List.pairwise_append.mpr ⟨names, List.pairwise_singleton _ _, ?_⟩
  intro row isRow other isOther isActive _ isNamed same
  rw [List.mem_singleton.mp isOther] at same
  rcases Option.isSome_iff_exists.mp isNamed with ⟨name, isName⟩
  exact free name (same ▸ isName) row isRow isActive isName

theorem names_setStatus {namespaces : List NamespaceEntity} {test : NamespaceEntity → Bool}
    {status : NamespaceStatus} (notActive : status ≠ .active)
    (names : NamespaceSystem.DistinctNames namespaces) :
    NamespaceSystem.DistinctNames
      (updated test (fun entity => { entity with status := status }) namespaces) := by
  refine List.pairwise_map.mpr (names.imp fun {left right} distinct => ?_)
  split
  · exact fun isActive => absurd isActive notActive
  · split
    · exact fun _ isActive => absurd isActive notActive
    · exact distinct

theorem setStatus (books : CreationBooks host requests system) {id : NamespaceId}
    {old new : NamespaceStatus} (notActive : new ≠ .active) :
    CreationBooks host requests (system.setStatus id old new) where
  names := names_setStatus notActive books.names
  keys := books.keys
  rows := by
    intro creation member
    rcases books.rows creation member with ⟨row, isRow, sameId⟩
    refine ⟨_, List.mem_map.mpr ⟨row, isRow, rfl⟩, ?_⟩
    rw [← sameId]
    split
    · rfl
    · rfl
  stored := books.stored
  known := books.known
  origin := books.origin
  answers := books.answers

theorem recordConflict (books : CreationBooks host requests system) (id : Nat) :
    CreationBooks host requests
      { system with tables := Storix.recordConflict host system.tables (requests id) } where
  names := by
    unfold Storix.recordConflict
    split
    · exact books.names
    · exact books.names
  keys := books.keys
  rows := by
    unfold Storix.recordConflict
    split
    · exact books.rows
    · exact books.rows
  stored := fun creation member =>
    ⟨(books.stored creation member).1, recordConflict_keeps (books.stored creation member).2⟩
  known := by
    intro key receipt found
    rcases get_recordConflict found with old | ⟨_, _, isConflict⟩
    · exact books.known key receipt old
    · exact .inr isConflict
  origin := by
    intro key receipt found isCreated
    rcases get_recordConflict found with old | ⟨_, _, isConflict⟩
    · exact books.origin key receipt old isCreated
    · rw [isConflict] at isCreated
      cases isCreated
  answers := fun other status body isPhase =>
    ⟨(books.answers other status body isPhase).1,
      recordConflict_keeps (books.answers other status body isPhase).2⟩

theorem provisioned (books : CreationBooks host requests system) {id drawn : Nat}
    {tables : NamespaceTables} {creation : NamespaceCreation} {phase : CreatePhase}
    (committed : Provisioned host (requests id) system.tables tables creation.entity
      creation.response)
    (isRequest : creation.request = id)
    (isPhase : phase = .answered (.ok (201, .created creation.response)) ∨
      phase = .failed .unexpected) :
    CreationBooks host requests
      ((⟨tables, system.phase, drawn, system.created ++ [creation]⟩ : NamespaceSystem).move id
        phase) := by
  have newReceipt : tables.receipts.get (requests id).idempotencyKey =
      some ⟨(requests id).requestHash host, 201, .created creation.response⟩ := by
    rw [committed.receipts, OrderedMap.get_set, if_pos rfl]
  constructor
  · show NamespaceSystem.DistinctNames tables.namespaces
    rw [committed.namespaces]
    refine names_append books.names fun name isName row isRow isActive sameName => ?_
    have free := committed.freeName name (committed.name ▸ isName)
    have taken := List.any_eq_false.mp free row isRow
    simp [isActive, sameName] at taken
  · show ((system.created ++ [creation]).map
      fun creation => (requests creation.request).idempotencyKey).Nodup
    rw [List.map_append, List.map_singleton, List.nodup_append]
    refine ⟨books.keys, List.nodup_singleton _, ?_⟩
    intro key isKey other isOther sameKey
    rw [List.mem_singleton.mp isOther, isRequest] at sameKey
    rcases List.mem_map.mp isKey with ⟨earlier, isEarlier, earlierKey⟩
    have stored := (books.stored earlier isEarlier).2
    rw [earlierKey, sameKey, committed.freeKey] at stored
    cases stored
  · intro other member
    show ∃ row ∈ tables.namespaces, row.id = other.entity.id
    rw [committed.namespaces]
    rcases List.mem_append.mp member with earlier | isNew
    · rcases books.rows other earlier with ⟨row, isRow, sameId⟩
      exact ⟨row, List.mem_append_left _ isRow, sameId⟩
    · rw [List.mem_singleton.mp isNew]
      exact ⟨creation.entity, by simp, rfl⟩
  · intro other member
    rcases List.mem_append.mp member with earlier | isNew
    · rcases books.stored other earlier with ⟨isResponse, stored⟩
      exact ⟨isResponse, committed.keeps stored⟩
    · rw [List.mem_singleton.mp isNew, isRequest]
      exact ⟨committed.isResponse, newReceipt⟩
  · intro key receipt found
    have found : tables.receipts.get key = some receipt := found
    rw [committed.receipts, OrderedMap.get_set] at found
    split at found
    · cases found
      exact .inl rfl
    · exact books.known key receipt found
  · intro key receipt found isCreated
    have found : tables.receipts.get key = some receipt := found
    rw [committed.receipts, OrderedMap.get_set] at found
    split at found
    · rename_i isKey
      exact ⟨creation, by simp [NamespaceSystem.move], by rw [isRequest, isKey]⟩
    · rcases books.origin key receipt found isCreated with ⟨earlier, isEarlier, sameKey⟩
      exact ⟨earlier, List.mem_append_left _ isEarlier, sameKey⟩
  · intro other status body isAnswer
    have isAnswer : Function.update system.phase id phase other =
      .answered (.ok (status, body)) := isAnswer
    show status = 201 ∧ tables.receipts.get (requests other).idempotencyKey = _
    by_cases same : other = id
    · subst same
      rw [Function.update_self] at isAnswer
      rcases isPhase with isCreated | isFailed
      · rw [isCreated] at isAnswer
        cases isAnswer
        exact ⟨rfl, newReceipt⟩
      · rw [isFailed] at isAnswer
        cases isAnswer
    · rw [Function.update_of_ne same] at isAnswer
      rcases books.answers other status body isAnswer with ⟨isStatus, stored⟩
      exact ⟨isStatus, committed.keeps stored⟩

theorem refuse (books : CreationBooks host requests system) {id : Nat} {name : Option JsString} :
    CreationBooks host requests (system.move id (.answered (.error (.alreadyExists name)))) :=
  books.move system.drawn fun _ _ isPhase => by cases isPhase

theorem step (books : CreationBooks host requests system)
    (taken : system.next host requests action = some next) : CreationBooks host requests next := by
  rcases next_cases books.known taken with ⟨id, phase, drawn, justified, rfl⟩ |
    ⟨id, tables, creation, drawn, phase, committed, isRequest, isPhase, rfl⟩ |
    ⟨id, now, fate, _, _, rfl⟩ | ⟨id, old, new, notActive, rfl⟩
  · exact books.move drawn justified.created
  · exact books.provisioned committed isRequest isPhase
  · split
    · exact books.refuse
    · exact (books.recordConflict id).refuse
  · exact books.setStatus notActive

theorem initial (isInitial : system.Initial) : CreationBooks host requests system where
  names := isInitial.names
  keys := by
    rw [isInitial.created]
    exact List.nodup_nil
  rows := by
    rw [isInitial.created]
    exact fun _ member => absurd member List.not_mem_nil
  stored := by
    rw [isInitial.created]
    exact fun _ member => absurd member List.not_mem_nil
  known := by
    rw [isInitial.receipts]
    exact fun _ _ found => absurd found (by simp)
  origin := by
    rw [isInitial.receipts]
    exact fun _ _ found => absurd found (by simp)
  answers := by
    intro id status body isPhase
    rw [isInitial.phase] at isPhase
    cases isPhase

theorem of_reachable {allowed : NamespaceSystem → NamespaceAction → Prop}
    (reached : (namespaceMachine host requests).ReachableBy allowed system) :
    CreationBooks host requests system :=
  reached.invariant (CreationBooks host requests) (fun _ isInitial => initial isInitial)
    fun _ _ _ _ books taken => books.step taken

end CreationBooks

/-! ## Answers agree with the receipt -/

/-- Where a request stores the receipt of a conflict, the key has not created a namespace for
the same request, and where there is no receipt yet the statement does not fail. -/
def timelyConflict (host : NamespaceHost) (requests : Nat → CreateNamespaceRequest)
    (system : NamespaceSystem) : NamespaceAction → Bool
  | .statement id _ fate =>
      match system.phase id with
      | .recording =>
          match system.tables.receipts.get (requests id).idempotencyKey with
          | none => fate != .failed
          | some receipt =>
              !(receipt.requestHash == (requests id).requestHash host &&
                receipt.responseStatus == 201)
      | _ => true
  | _ => true

theorem timelyConflict_recording {id now : Nat} {fate : Fate}
    (timely : timelyConflict host requests system (.statement id now fate) = true)
    (isRecording : system.phase id = .recording) :
    (fate = .failed → system.tables.receipts.has (requests id).idempotencyKey = true) ∧
      ∀ receipt, system.tables.receipts.get (requests id).idempotencyKey = some receipt →
        ¬(receipt.requestHash = (requests id).requestHash host ∧
          receipt.responseStatus = 201) := by
  simp only [timelyConflict, isRecording] at timely
  cases found : system.tables.receipts.get (requests id).idempotencyKey with
  | none =>
      rw [found] at timely
      refine ⟨fun isFailed => ?_, fun receipt isReceipt => by cases isReceipt⟩
      rw [isFailed] at timely
      cases timely
  | some stored =>
      rw [found] at timely
      refine ⟨fun _ => ?_, fun receipt isReceipt => ?_⟩
      · unfold OrderedMap.has
        rw [found]
        rfl
      · cases isReceipt
        rw [Bool.not_eq_true', Bool.and_eq_false_iff, beq_eq_false_iff_ne, beq_eq_false_iff_ne]
          at timely
        exact fun both => timely.elim (fun differs => differs both.1) fun differs => differs both.2

/-- Every conflict that was answered has a receipt that does not contradict it. -/
def ConflictsBacked (host : NamespaceHost) (requests : Nat → CreateNamespaceRequest)
    (system : NamespaceSystem) : Prop :=
  ∀ id name, system.phase id = .answered (.error (.alreadyExists name)) →
    ∃ receipt, system.tables.receipts.get (requests id).idempotencyKey = some receipt ∧
      ¬(receipt.requestHash = (requests id).requestHash host ∧ receipt.responseStatus = 201)

theorem ConflictsBacked.move (backed : ConflictsBacked host requests system) {id : Nat}
    {later : NamespaceSystem} {phase : CreatePhase}
    (keeps : ∀ key receipt, system.tables.receipts.get key = some receipt →
      later.tables.receipts.get key = some receipt)
    (isLater : later.phase = Function.update system.phase id phase)
    (refused : ∀ name, phase = .answered (.error (.alreadyExists name)) →
      ∃ receipt, later.tables.receipts.get (requests id).idempotencyKey = some receipt ∧
        ¬(receipt.requestHash = (requests id).requestHash host ∧ receipt.responseStatus = 201)) :
    ConflictsBacked host requests later := by
  intro other name isPhase
  rw [isLater] at isPhase
  by_cases same : other = id
  · subst same
    rw [Function.update_self] at isPhase
    exact refused name isPhase
  · rw [Function.update_of_ne same] at isPhase
    rcases backed other name isPhase with ⟨receipt, found, agrees⟩
    exact ⟨receipt, keeps _ _ found, agrees⟩

theorem ConflictsBacked.step (books : CreationBooks host requests system)
    (backed : ConflictsBacked host requests system)
    (timely : timelyConflict host requests system action = true)
    (taken : system.next host requests action = some next) :
    ConflictsBacked host requests next := by
  have keeps : ∀ key receipt, system.tables.receipts.get key = some receipt →
      next.tables.receipts.get key = some receipt :=
    fun _ _ found => next_keeps books.known taken found
  rcases next_cases books.known taken with ⟨id, phase, drawn, justified, rfl⟩ |
    ⟨id, tables, creation, drawn, phase, committed, isRequest, isPhase, rfl⟩ |
    ⟨id, now, fate, isAction, isRecording, rfl⟩ | ⟨id, old, new, notActive, rfl⟩
  · exact backed.move keeps rfl justified.refused
  · refine backed.move keeps rfl fun name isRefused => ?_
    rcases isPhase with isCreated | isFailed
    · rw [isCreated] at isRefused
      cases isRefused
    · rw [isFailed] at isRefused
      cases isRefused
  · rw [isAction] at timely
    rcases timelyConflict_recording timely isRecording with ⟨present, notCreated⟩
    refine backed.move keeps rfl fun _ _ => ?_
    unfold NamespaceSystem.move
    dsimp only
    split
    · rename_i isFailed
      rcases Option.isSome_iff_exists.mp (present isFailed) with ⟨receipt, found⟩
      exact ⟨receipt, found, notCreated receipt found⟩
    · rcases recordConflict_stored host system.tables (requests id) with ⟨receipt, found⟩
      refine ⟨receipt, found, ?_⟩
      rcases get_recordConflict found with old | ⟨_, _, isConflict⟩
      · exact notCreated receipt old
      · rw [isConflict]
        simp
  · exact backed

/-- What holds of the receipts and the namespaces in every state. -/
structure CreationKept (host : NamespaceHost) (requests : Nat → CreateNamespaceRequest)
    (system : NamespaceSystem) : Prop where
  /-- A key creates at most one namespace. -/
  single : ∀ key, (system.created.filter fun creation =>
    (requests creation.request).idempotencyKey == key).length ≤ 1
  /-- It creates one exactly if its receipt of a creation is stored. -/
  exact : ∀ key, (∃ creation ∈ system.created, (requests creation.request).idempotencyKey = key) ↔
    ∃ receipt, system.tables.receipts.get key = some receipt ∧ receipt.responseStatus = 201
  /-- A stored receipt never changes. -/
  kept : ∀ later, (namespaceMachine host requests).Runs system later → ∀ key receipt,
    system.tables.receipts.get key = some receipt →
      later.tables.receipts.get key = some receipt
  /-- Active namespaces have different names. -/
  names : NamespaceSystem.DistinctNames system.tables.namespaces
  /-- A created namespace is answered with the stored body. -/
  answers : ∀ id status body, system.phase id = .answered (.ok (status, body)) →
    status = 201 ∧ ∃ receipt,
      system.tables.receipts.get (requests id).idempotencyKey = some receipt ∧
      receipt.requestHash = (requests id).requestHash host ∧ receipt.responseStatus = 201 ∧
      receipt.responseBody = body

theorem CreationBooks.kept (reached : (namespaceMachine host requests).Reachable system) :
    CreationKept host requests system := by
  have books := CreationBooks.of_reachable reached
  refine ⟨fun key => ?_, fun key => ⟨?_, ?_⟩, ?_, books.names, ?_⟩
  · rw [← List.countP_eq_length_filter]
    have single := List.nodup_iff_count_le_one.mp books.keys key
    rwa [List.count, List.countP_map] at single
  · rintro ⟨creation, member, isKey⟩
    exact ⟨_, isKey ▸ (books.stored creation member).2, rfl⟩
  · rintro ⟨receipt, found, isCreated⟩
    exact books.origin key receipt found isCreated
  · intro later run
    have both := run.invariant
      (fun state => CreationBooks host requests state ∧ ∀ key receipt,
        system.tables.receipts.get key = some receipt →
          state.tables.receipts.get key = some receipt)
      (fun state _ _ _ facts taken => ⟨facts.1.step taken, fun key receipt found =>
        next_keeps facts.1.known taken (facts.2 key receipt found)⟩)
      ⟨books, fun _ _ found => found⟩
    exact both.2
  · intro id status body isAnswer
    rcases books.answers id status body isAnswer with ⟨isStatus, found⟩
    exact ⟨isStatus, _, found, rfl, rfl, rfl⟩

def NamespaceHost.counting : NamespaceHost where
  canonicalJsonHash := fun fields => fields.name.getD []
  randomUUID := id
  randomUUID_injective := Function.injective_id

def statements (ids : List Nat) : List NamespaceAction :=
  ids.map fun id => .statement id 0 .done

def CreatePhase.isConflict : CreatePhase → Bool
  | .answered (.error (.alreadyExists _)) => true
  | _ => false

end Storix
