import MukhiDb.Executor.Rows
import MukhiDb.Server.Dialogue

/-!
Contract: what the requests and responses at a connection tell about the session behind it.

Owns: the requests with their responses, read off a history; the events on which rows are relied on, read
off their texts; that the session has given the answers which these texts tell; and the exchange between
a request and its response.

Does not own: what other sessions do meanwhile.
-/

namespace MukhiDb.Model

open MukhiDb.Foundation

/-! ### Texts -/

namespace Dispatch

/-- The statement in a message. -/
def statementOf : Message → Option Statement
  | .query sql =>
      if btreeWord.isPrefixOf (trim sql.toList) then none
      else (Parser.parse (String.ofList (trim sql.toList))).toOption
  | _ => none

/-- Success or failure, as an answer. -/
def outcome (success : Bool) : Except Fault Answer := if success then .ok .done else .error .panic

/-- What a request and its response tell about the rows of a table. -/
def heard (request response : Message) : Option Event :=
  match statementOf request with
  | some (.insert table values) =>
      some (.ran (.insert table values) (outcome (response = .ok "1 row inserted.")))
  | some .begin => some (.ran .begin (outcome (response = .ok "Transaction started.")))
  | some .commit => some (.ran .commit (outcome (response = .ok "Transaction committed.")))
  | some .rollback => some (.ran .rollback (outcome (response = .ok "Transaction rolled back.")))
  | _ => none

/-- The operation has no effect on the rows that are relied on. -/
def Quiet : Operation → Prop
  | .createTable _ _ | .selectAll _ | .dumpBtree _ => True
  | _ => False

theorem selectAll_quiet (table : String) : (Session.selectAll table).Only Quiet := by
  refine Calls.Only.bind (.ask trivial) fun reply => ?_
  match reply with
  | .ok (.rows _ _) | .ok .done | .ok (.text _) | .error _ => exact .done _

theorem dumpBtree_quiet (table : String) : (Session.dumpBtree table).Only Quiet := by
  refine Calls.Only.bind (.ask trivial) fun reply => ?_
  match reply with
  | .ok (.rows _ _) | .ok .done | .ok (.text _) | .error _ => exact .done _

theorem respond_statement {message : Message} {statement : Statement}
    (parsed : statementOf message = some statement) :
    respond message = Executor.execute statement >>= fun result => pure (messageOf result) := by
  cases message with
  | query sql =>
      unfold statementOf at parsed
      simp only at parsed
      split at parsed
      · cases parsed
      · next other =>
          change dispatch sql = _
          unfold dispatch
          simp only
          rw [if_neg other]
          cases ran : Parser.parse (String.ofList (trim sql.toList)) with
          | error fault =>
              rw [ran] at parsed
              cases parsed
          | ok value =>
              rw [ran] at parsed
              obtain rfl : value = statement := Option.some.inj parsed
              rfl
  | ok | error | rows => cases parsed

/-- A message without a statement calls nothing that has an effect, and neither do these statements. -/
theorem respond_quiet {message : Message}
    (silent : ∀ response, heard message response = none) : (respond message).Only Quiet := by
  cases parsed : statementOf message with
  | none =>
      cases message with
      | query sql =>
          unfold statementOf at parsed
          simp only at parsed
          change (dispatch sql).Only Quiet
          unfold dispatch
          simp only
          split at parsed
          · next btree =>
              rw [if_pos btree]
              exact (dumpBtree_quiet _).bind fun _ => .done _
          · next other =>
              rw [if_neg other]
              cases ran : Parser.parse (String.ofList (trim sql.toList)) with
              | error fault => exact .done _
              | ok statement =>
                  rw [ran] at parsed
                  cases parsed
      | ok | error | rows => exact .done _
  | some statement =>
      have said := silent (.ok "")
      rw [respond_statement parsed]
      unfold heard at said
      rw [parsed] at said
      cases statement with
      | insert | begin | commit | rollback => cases said
      | createTable => exact Calls.Only.bind (.bind (.ask trivial) fun _ => .done _) fun _ => .done _
      | unknown command => exact .done _
      | select table join whereClause =>
          refine Calls.Only.bind ?_ fun _ => .done _
          cases join with
          | none =>
              refine (selectAll_quiet table).bind fun scanned => ?_
              match scanned with
              | .error _ => exact .done _
              | .ok (headers, rows) => exact Calls.Only.bind (.done _) fun _ => .done _
          | some jc =>
              refine (selectAll_quiet table).bind fun left => ?_
              match left with
              | .error _ => exact .done _
              | .ok left =>
                  refine (selectAll_quiet jc.rightTable).bind fun right => ?_
                  match right with
                  | .error _ => exact .done _
                  | .ok right => exact .done _

/-- The message of an operation that failed. -/
theorem messageOf_error (error : String) :
    ∃ text, messageOf (Executor.errorMessage error) = .error text := by
  have front : errorWord.isPrefixOf (s!"Error: {error}").toList = true := by
    change errorWord.isPrefixOf ("Error: " ++ error).toList = true
    rw [String.toList_append]
    rfl
  exact ⟨_, if_pos front⟩

/-- A program of one call whose reply is only reported. -/
theorem holds_told {operation : Operation} {success : String} {talk : List (Operation × Reply)}
    {response : Message}
    (holds : ((do let reply ← Calls.ask operation; pure (Executor.told success reply) :
      SessionProgram ExecuteResult) >>= fun result => pure (messageOf result)).Holds talk (.ok response)) :
    ∃ reply, talk = [(operation, reply)] ∧ response = messageOf (Executor.told success reply) := by
  obtain ⟨reply, later, rfl, rest⟩ := Calls.holds_call.mp holds
  obtain ⟨rfl, same⟩ := Calls.holds_done.mp rest
  exact ⟨reply, rfl, Except.ok.inj same⟩

/-- Success is told by its own text only. -/
theorem outcome_told {success : String} (plain : errorWord.isPrefixOf success.toList = false) (reply : Reply) :
    (outcome (decide (messageOf (Executor.told success reply) = .ok success))).isOk =
      (answerOf reply).isOk := by
  cases reply with
  | ok answer =>
      have same : messageOf (Executor.told success (.ok answer)) = .ok success := by
        simp [Executor.told, messageOf, plain]
      simp [same, outcome, answerOf, Except.isOk, Except.toBool]
  | error error =>
      obtain ⟨text, same⟩ := messageOf_error error
      have told : messageOf (Executor.told success (.error error)) = .error text := same
      simp [told, outcome, answerOf, Except.isOk, Except.toBool]

end Dispatch

/-! ### What is relied on -/

namespace Receipts

variable {name : String}

/-- Records look at whether an operation succeeded only. -/
theorem record_outcome {operation : Operation} {answer other : Except Fault Answer} (same : answer.isOk = other.isOk)
    (receipts : Receipts) :
    receipts.record name (.ran operation answer) = receipts.record name (.ran operation other) := by
  cases answer <;> cases other <;> cases operation <;>
    simp_all [record, Except.isOk, Except.toBool]

theorem record_quiet {operation : Operation} (quiet : Dispatch.Quiet operation) (answer : Except Fault Answer)
    (receipts : Receipts) : receipts.record name (.ran operation answer) = receipts := by
  cases operation <;> first | rfl | exact quiet.elim

/-- What is kept stays kept. -/
theorem kept_record (receipts : Receipts) (event : Event) :
    receipts.kept ≤ (receipts.record name event).kept := by
  have inserted (row : Row) : receipts.kept ≤ (receipts.insert row).kept := by
    unfold Receipts.insert
    split
    · exact le_rfl
    · exact Multiset.le_cons_self _ _
  unfold record
  split
  · split
    · split
      · exact inserted _
      · exact le_rfl
    · exact le_rfl
  · exact le_rfl
  · exact Multiset.le_add_right _ _
  · exact le_rfl
  · exact le_rfl
  · exact le_rfl
  · split <;> exact le_rfl
  · exact le_rfl

theorem kept_foldl (receipts : Receipts) (events : List Event) :
    receipts.kept ≤ (events.foldl (record name) receipts).kept := by
  induction events generalizing receipts with
  | nil => exact le_rfl
  | cons event rest inductionHypothesis => exact (kept_record receipts event).trans (inductionHypothesis _)

theorem kept_of_append (name : String) (events later : List Event) :
    (of name events).kept ≤ (of name (events ++ later)).kept := by
  unfold of
  rw [List.foldl_append]
  exact kept_foldl _ _

/-- The answers of the session during an exchange, as its texts tell them. -/
theorem foldl_exchange {exchange : Exchange} (plays : exchange.Plays) (id : Nat) (receipts : Receipts) :
    ((answersOf id exchange.talk).map Entry.event).foldl (record name) receipts =
      (Dispatch.heard exchange.message exchange.response).toList.foldl (record name) receipts := by
  have one {operation : Operation} {success : String}
      (parsed : Dispatch.respond exchange.message =
        ((do let reply ← Calls.ask operation; pure (Executor.told success reply) :
          SessionProgram ExecuteResult) >>= fun result => pure (Dispatch.messageOf result)))
      (plain : Dispatch.errorWord.isPrefixOf success.toList = false)
      (heard : Dispatch.heard exchange.message exchange.response =
        some (.ran operation (Dispatch.outcome (exchange.response = .ok success)))) :
      ((answersOf id exchange.talk).map Entry.event).foldl (record name) receipts =
        (Dispatch.heard exchange.message exchange.response).toList.foldl (record name) receipts := by
    unfold Exchange.Plays at plays
    rw [parsed] at plays
    obtain ⟨reply, talk, response⟩ := Dispatch.holds_told plays
    rw [heard, talk, response]
    exact (record_outcome (Dispatch.outcome_told plain reply) receipts).symm
  by_cases silent : ∀ response, Dispatch.heard exchange.message response = none
  · have quiet := plays.all (Dispatch.respond_quiet silent)
    rw [silent]
    generalize exchange.talk = talk at quiet
    induction talk with
    | nil => rfl
    | cons said rest inductionHypothesis =>
        obtain ⟨this, others⟩ := List.forall_mem_cons.mp quiet
        have still : receipts.record name (Entry.event ⟨id, said.1, answerOf said.2⟩) = receipts :=
          record_quiet this _ _
        rw [answersOf, List.map_cons, List.map_cons, List.foldl_cons, still]
        exact inductionHypothesis others
  · cases parsed : Dispatch.statementOf exchange.message with
    | none => simp [Dispatch.heard, parsed] at silent
    | some statement =>
        have responds := Dispatch.respond_statement parsed
        cases statement with
        | insert => exact one responds (by decide) (by simp [Dispatch.heard, parsed])
        | begin => exact one responds (by decide) (by simp [Dispatch.heard, parsed])
        | commit => exact one responds (by decide) (by simp [Dispatch.heard, parsed])
        | rollback => exact one responds (by decide) (by simp [Dispatch.heard, parsed])
        | createTable | select | unknown => simp [Dispatch.heard, parsed] at silent

end Receipts

/-! ### Requests and responses -/

namespace Server

/-- The requests at a connection that were responded to, with the responses. The last request before is
given. -/
def responded (id : Nat) : (last : Option Message) → List Happening → List (Message × Message)
  | _, [] => []
  | last, .asked at_ request :: rest => responded id (if at_ = id then some request else last) rest
  | last, .took _ :: rest => responded id last rest
  | last, .told at_ response :: rest =>
      if at_ = id then (last.map fun request => (request, response)).toList ++ responded id none rest
      else responded id last rest

variable {id : Nat} {exchanges : List Exchange} {recent front middle back : List Happening}
  {request response : Message}

theorem atConnection_own {happening : Happening} (own : happening.at_ = id) (rest : List Happening) :
    atConnection id (happening :: rest) = happening :: atConnection id rest :=
  List.filter_cons_of_pos (decide_eq_true own)

theorem atConnection_other {happening : Happening} (apart : happening.at_ ≠ id) (rest : List Happening) :
    atConnection id (happening :: rest) = atConnection id rest :=
  List.filter_cons_of_neg (by simpa using apart)

theorem responded_atConnection (id : Nat) (last : Option Message) (history : List Happening) :
    responded id last (atConnection id history) = responded id last history := by
  induction history generalizing last with
  | nil => rfl
  | cons happening rest inductionHypothesis =>
      by_cases own : happening.at_ = id
      · rw [atConnection_own own]
        cases happening with
        | asked | took => exact inductionHypothesis _
        | told => simp [responded, inductionHypothesis]
      · rw [atConnection_other own, inductionHypothesis]
        cases happening with
        | took => rfl
        | asked at_ message =>
            have apart : at_ ≠ id := own
            simp [responded, apart]
        | told at_ message =>
            have apart : at_ ≠ id := own
            simp [responded, apart]

theorem responded_untold (untold : ∀ response, .told id response ∉ front) (last : Option Message) :
    responded id last front = [] := by
  induction front generalizing last with
  | nil => rfl
  | cons happening rest inductionHypothesis =>
      have others (response : Message) : .told id response ∉ rest :=
        fun member => untold response (List.mem_cons_of_mem _ member)
      cases happening with
      | asked | took => exact inductionHypothesis others _
      | told at_ response =>
          have apart : at_ ≠ id := fun here => untold response (by simp [here])
          unfold responded
          rw [if_neg apart]
          exact inductionHypothesis others _

theorem responded_took (id : Nat) (last : Option Message) (entries : List Entry) (rest : List Happening) :
    responded id last (entries.map .took ++ rest) = responded id last rest := by
  induction entries with
  | nil => rfl
  | cons entry entries inductionHypothesis => exact inductionHypothesis

theorem responded_block (id : Nat) (exchange : Exchange) (rest : List Happening) :
    responded id none (exchange.block id ++ rest) =
      (exchange.message, exchange.response) :: responded id none rest := by
  unfold Exchange.block
  rw [List.cons_append, List.append_assoc, responded, if_pos rfl, responded_took]
  simp [responded]

theorem entries_took (entries : List Entry) :
    (entries.map Happening.took).filterMap Happening.entry = entries := by
  rw [List.filterMap_map]
  exact List.filterMap_some

theorem entries_block (id : Nat) (exchange : Exchange) :
    (exchange.block id).filterMap Happening.entry = answersOf id exchange.talk := by
  unfold Exchange.block
  rw [List.filterMap_cons_none rfl, List.filterMap_append, entries_took]
  simp [Happening.entry]

theorem told_of_block {exchange : Exchange} (begins : front <+: exchange.block id) :
    front = exchange.block id ∨ ∀ response, .told id response ∉ front := by
  unfold Exchange.block at begins ⊢
  rw [← List.cons_append] at begins ⊢
  rcases List.prefix_concat_iff.mp begins with whole | within
  · exact Or.inl whole
  · refine Or.inr fun response member => ?_
    simpa using within.subset member

/-- The beginning of a conversation: the exchanges that are over by then, and some answers since. -/
theorem responded_front (untold : ∀ response, .told id response ∉ recent)
    (begins : front <+: exchanges.flatMap (Exchange.block id) ++ recent) :
    ∃ count more,
      responded id none front =
        (exchanges.take count).map (fun exchange => (exchange.message, exchange.response)) ∧
      front.filterMap Happening.entry =
        (exchanges.take count).flatMap (fun exchange => answersOf id exchange.talk) ++ more := by
  induction exchanges generalizing front with
  | nil =>
      rw [List.flatMap_nil, List.nil_append] at begins
      have none (response : Message) : .told id response ∉ front :=
        fun member => untold response (begins.subset member)
      exact ⟨0, _, responded_untold none _, rfl⟩
  | cons exchange rest inductionHypothesis =>
      rw [List.flatMap_cons, List.append_assoc] at begins
      rcases List.prefix_or_prefix_of_prefix begins (List.prefix_append _ _) with within | beyond
      · rcases told_of_block within with rfl | none
        · refine ⟨1, [], ?_, ?_⟩
          · rw [← List.append_nil (exchange.block id), responded_block]
            rfl
          · simp [entries_block]
        · exact ⟨0, _, responded_untold none _, rfl⟩
      · obtain ⟨later, rfl⟩ := beyond
        rw [List.prefix_append_right_inj] at begins
        obtain ⟨count, more, pairs, entries⟩ := inductionHypothesis begins
        refine ⟨count + 1, more, ?_, ?_⟩
        · rw [responded_block, pairs, List.take_succ_cons, List.map_cons]
        · rw [List.filterMap_append, entries_block, entries, List.take_succ_cons, List.flatMap_cons,
            List.append_assoc]

/-- Up to the first response. -/
theorem untold_unique {left right leftBack rightBack : List Happening} {one other : Message}
    (same : left ++ .told id one :: leftBack = right ++ .told id other :: rightBack)
    (leftUntold : ∀ response, .told id response ∉ left) (rightUntold : ∀ response, .told id response ∉ right) :
    left = right ∧ one = other := by
  rcases List.append_eq_append_iff.mp same with ⟨between, rfl, rest⟩ | ⟨between, rfl, rest⟩
  · cases between with
    | nil =>
        cases rest
        exact ⟨(List.append_nil _).symm, rfl⟩
    | cons first between =>
        cases rest
        exact absurd (by simp) (rightUntold one)
  · cases between with
    | nil =>
        cases rest
        exact ⟨List.append_nil _, rfl⟩
    | cons first between =>
        cases rest
        exact absurd (by simp) (leftUntold other)

/-- The exchange between a request and its response. -/
theorem exchange_between (untold : ∀ response, .told id response ∉ recent)
    (split : exchanges.flatMap (Exchange.block id) ++ recent =
      front ++ .asked id request :: (middle ++ .told id response :: back))
    (silent : ∀ response, .told id response ∉ middle) :
    ∃ exchange ∈ exchanges, exchange.message = request ∧ exchange.response = response ∧
      middle = (answersOf id exchange.talk).map .took := by
  induction exchanges generalizing front with
  | nil =>
      rw [List.flatMap_nil, List.nil_append] at split
      exact absurd (by simp [split]) (untold response)
  | cons exchange rest inductionHypothesis =>
      rw [List.flatMap_cons, List.append_assoc] at split
      have later {front : List Happening}
          (split : rest.flatMap (Exchange.block id) ++ recent =
            front ++ .asked id request :: (middle ++ .told id response :: back)) :
          ∃ other ∈ exchange :: rest, other.message = request ∧ other.response = response ∧
            middle = (answersOf id other.talk).map .took := by
        obtain ⟨other, member, same⟩ := inductionHypothesis split
        exact ⟨other, List.mem_cons_of_mem _ member, same⟩
      rcases List.append_eq_append_iff.mp split with ⟨more, -, further⟩ | ⟨block, begins, further⟩
      · exact later further
      · cases block with
        | nil => exact @later [] further.symm
        | cons first block =>
            obtain ⟨rfl, whole⟩ := List.cons.inj further
            unfold Exchange.block at begins
            cases front with
            | nil =>
                obtain ⟨head, tail⟩ := List.cons.inj begins
                have shape : middle ++ .told id response :: back =
                    (answersOf id exchange.talk).map .took ++
                      .told id exchange.response :: (rest.flatMap (Exchange.block id) ++ recent) := by
                  rw [← tail] at whole
                  simpa using whole
                obtain ⟨same, told⟩ := untold_unique shape silent (by simp)
                exact ⟨exchange, List.mem_cons_self, (Happening.asked.inj head).2, told.symm, same⟩
            | cons other front =>
                obtain ⟨-, tail⟩ := List.cons.inj begins
                have member : Happening.asked id request ∈
                    (answersOf id exchange.talk).map Happening.took ++ [.told id exchange.response] := by
                  simp [tail]
                simp at member

end Server

end MukhiDb.Model
