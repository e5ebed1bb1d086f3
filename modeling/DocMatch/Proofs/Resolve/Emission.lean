import DocMatch.Emission
import DocMatch.Proofs.Expr.Acceptance
import DocMatch.Proofs.Resolve.Arrangement

/-!
Emissions. One session answers all the names that are asked for, and answers each as a session of
its own would; so what an emission gives is settled by the names alone, in the order in which they
first come. Going on after a failure, stopping at the first, resolving all and resolving each are
four readings of one account.

    asked for     b, a, b, c                      a fails
    account       b, c  and  a                    goes on: both       stops: the error of a
-/

namespace DocMatch

/-! ### What is found under names -/

namespace Fields

variable {α : Type} {find : String → Option α} {asked : List String} {name : String} {a : α}

/-- What is found under some names, in the order in which they first come. -/
def collect (find : String → Option α) (asked : List String) : Fields α :=
  asked.eraseDups.filterMap fun name => (find name).map fun a => (name, a)

theorem mem_collect : (name, a) ∈ collect find asked ↔ name ∈ asked ∧ find name = some a := by
  simp only [collect, List.mem_filterMap, List.mem_eraseDups, Option.map_eq_some_iff,
    Prod.mk.injEq]
  constructor
  · rintro ⟨other, hother, b, hb, rfl, rfl⟩
    exact ⟨hother, hb⟩
  · rintro ⟨hname, ha⟩
    exact ⟨name, hname, a, ha, rfl, rfl⟩

theorem mem_names_collect :
    name ∈ (collect find asked).names ↔ name ∈ asked ∧ ∃ a, find name = some a := by
  simp only [names, List.mem_map]
  constructor
  · rintro ⟨⟨other, a⟩, hmem, rfl⟩
    obtain ⟨hasked, ha⟩ := mem_collect.1 hmem
    exact ⟨hasked, a, ha⟩
  · rintro ⟨hasked, a, ha⟩
    exact ⟨(name, a), mem_collect.2 ⟨hasked, ha⟩, rfl⟩

/-- The names under which something is found stand in the order in which they first come. -/
theorem names_collect_sublist (find : String → Option α) (asked : List String) :
    (collect find asked).names.Sublist asked.eraseDups := by
  unfold collect
  generalize asked.eraseDups = distinct
  induction distinct with
  | nil => exact List.Sublist.slnil
  | cons name rest ih =>
    cases h : find name with
    | none => simpa [h] using ih.cons name
    | some a => simpa [h] using ih.cons_cons name

/-- Writing what is already there changes nothing. -/
theorem put_of_get? {fields : Fields α} (h : fields.get? name = some a) :
    fields.put name a = fields := by
  induction fields with
  | nil => cases h
  | cons entry rest ih =>
    obtain ⟨k, v⟩ := entry
    by_cases hk : k = name
    · simp only [get?, hk, if_true, Option.some.injEq] at h
      rw [put, if_pos hk, h]
    · simp only [get?, hk, if_false] at h
      rw [put, if_neg hk, ih h]

/-- One more name under which something is found. -/
theorem collect_concat_some (h : find name = some a) :
    collect find (asked ++ [name]) = (collect find asked).put name a := by
  by_cases hname : name ∈ asked
  · have hnodup : (collect find asked).names.Nodup :=
      (names_collect_sublist find asked).nodup (nodup_eraseDups asked)
    rw [put_of_get? ((get?_eq_some_iff hnodup).2 (mem_collect.2 ⟨hname, h⟩))]
    simp [collect, eraseDups_concat, hname]
  · rw [put_of_not_mem fun hmem => hname (mem_names_collect.1 hmem).1]
    simp [collect, eraseDups_concat, hname, h]

/-- One more name under which nothing is found. -/
theorem collect_concat_none (h : find name = none) :
    collect find (asked ++ [name]) = collect find asked := by
  by_cases hname : name ∈ asked
  · simp [collect, eraseDups_concat, hname]
  · simp [collect, eraseDups_concat, hname, h]

/-- More names leave what was found before in its place. -/
theorem collect_prefix (find : String → Option α) (asked more : List String) :
    collect find asked <+: collect find (asked ++ more) := by
  unfold collect
  rw [List.eraseDups_append, List.filterMap_append]
  exact List.prefix_append _ _

theorem collect_of_nodup (h : asked.Nodup) :
    collect find asked = asked.filterMap fun name => (find name).map fun a => (name, a) := by
  rw [collect, eraseDups_of_nodup h]

end Fields

/-! ### One account -/

/-- The error of a result that has one. -/
def errorOf? (r : Except EvalError Value) : Option EvalError :=
  match r with
  | .ok _ => none
  | .error e => some e

namespace Matchers

variable {matchers : Matchers} {document : Value} {asked rest : List String} {name : String}

/-- What becomes of some names, each in a session of its own. -/
def account (matchers : Matchers) (document : Value) (asked : List String) : Emission :=
  ⟨Fields.collect (fun name => (matchers.fresh document name).toOption) asked,
    Fields.collect (fun name => errorOf? (matchers.fresh document name)) asked⟩

theorem account_concat_ok {v : Value} (h : matchers.fresh document name = .ok v) :
    matchers.account document (asked ++ [name]) =
      (matchers.account document asked).withValue name v := by
  unfold account Emission.withValue
  rw [Fields.collect_concat_some (congrArg Except.toOption h),
    Fields.collect_concat_none (congrArg errorOf? h)]

theorem account_concat_error {e : EvalError} (h : matchers.fresh document name = .error e) :
    matchers.account document (asked ++ [name]) =
      (matchers.account document asked).withFailure name e := by
  unfold account Emission.withFailure
  rw [Fields.collect_concat_none (congrArg Except.toOption h),
    Fields.collect_concat_some (congrArg errorOf? h)]

variable {keepGoing : Bool} {session : Session} {emission : Emission}

theorem emitNames_cons_ok {v : Value} (h : (matchers.resolve document name session).1 = .ok v) :
    matchers.emitNames document keepGoing (name :: rest) session emission =
      matchers.emitNames document keepGoing rest (matchers.resolve document name session).2
        (emission.withValue name v) := by
  rw [emitNames]
  cases hresolve : matchers.resolve document name session with
  | mk result after =>
    rw [hresolve] at h
    cases h
    rfl

theorem emitNames_cons_error {e : EvalError}
    (h : (matchers.resolve document name session).1 = .error e) :
    matchers.emitNames document keepGoing (name :: rest) session emission =
      if keepGoing then
        matchers.emitNames document keepGoing rest (matchers.resolve document name session).2
          (emission.withFailure name e)
      else .error e := by
  rw [emitNames]
  cases hresolve : matchers.resolve document name session with
  | mk result after =>
    rw [hresolve] at h
    cases h
    rfl

/-- Going on turns the account of what was asked for before into the account of all. -/
theorem emitNames_going (rest : List String) (hs : Sound matchers document [] session) :
    matchers.emitNames document true rest session (matchers.account document asked) =
      .ok (matchers.account document (asked ++ rest)) := by
  induction rest generalizing session asked with
  | nil => rw [emitNames, List.append_nil]
  | cons name rest ih =>
    have houtcome := matchers.resolve_yields document name session hs
    rw [List.append_cons]
    cases h : matchers.fresh document name with
    | ok v =>
      rw [emitNames_cons_ok (houtcome.result.trans h), ← account_concat_ok h]
      exact ih houtcome.sound
    | error e =>
      rw [emitNames_cons_error (houtcome.result.trans h), if_pos rfl, ← account_concat_error h]
      exact ih houtcome.sound

/-- What is left of an account when the first failure ends it. -/
def stopped (account : Emission) : Except EvalError Emission :=
  match account.failures with
  | [] => .ok account
  | (_, e) :: _ => .error e

theorem stopped_of_failures_nil {account : Emission} (h : account.failures = []) :
    stopped account = .ok ⟨account.resolved, []⟩ := by
  obtain ⟨resolved, failures⟩ := account
  cases h
  rfl

/-- The first failure of some names is that of all names that begin with them. -/
theorem stopped_append {e : EvalError}
    (h : (matchers.account document asked).failures = [(name, e)]) (rest : List String) :
    stopped (matchers.account document (asked ++ rest)) = .error e := by
  obtain ⟨more, hmore⟩ : (matchers.account document asked).failures <+:
      (matchers.account document (asked ++ rest)).failures := Fields.collect_prefix _ asked rest
  rw [stopped, ← hmore, h]
  rfl

/-- Stopping at the first failure gives what is left of the account of all. -/
theorem emitNames_stopping (rest : List String) (hs : Sound matchers document [] session)
    (hnone : (matchers.account document asked).failures = []) :
    matchers.emitNames document false rest session (matchers.account document asked) =
      stopped (matchers.account document (asked ++ rest)) := by
  induction rest generalizing session asked with
  | nil => rw [emitNames, List.append_nil, stopped, hnone]
  | cons name rest ih =>
    have houtcome := matchers.resolve_yields document name session hs
    rw [List.append_cons]
    cases h : matchers.fresh document name with
    | ok v =>
      rw [emitNames_cons_ok (houtcome.result.trans h), ← account_concat_ok h]
      refine ih houtcome.sound ?_
      rw [account_concat_ok h]
      exact hnone
    | error e =>
      rw [emitNames_cons_error (houtcome.result.trans h), if_neg Bool.false_ne_true]
      have hfirst : (matchers.account document (asked ++ [name])).failures = [(name, e)] := by
        rw [account_concat_error h, Emission.withFailure, hnone]
        rfl
      exact (stopped_append hfirst rest).symm

theorem emit_going (names : List String) :
    matchers.emit document names true =
      .ok (matchers.account document (matchers.requested names)) := by
  rw [emit, show Emission.empty = matchers.account document [] from rfl]
  exact emitNames_going _ Sound.empty

theorem emit_stopping (names : List String) :
    matchers.emit document names false =
      stopped (matchers.account document (matchers.requested names)) := by
  rw [emit, show Emission.empty = matchers.account document [] from rfl]
  exact emitNames_stopping _ Sound.empty rfl

/-! ### All names, and each of them -/

theorem failures_account_eq_nil (h : ∀ name ∈ asked, ∃ v, matchers.fresh document name = .ok v) :
    (matchers.account document asked).failures = [] := by
  refine List.filterMap_eq_nil_iff.2 fun name hname => ?_
  obtain ⟨v, hv⟩ := h name (List.mem_eraseDups.1 hname)
  simp only [hv, errorOf?, Option.map_none]

/-- Complete values are those of the account of all names. -/
theorem Complete.eq_account {values : Fields Value} (h : matchers.Complete document values)
    (hnodup : matchers.names.Nodup) :
    values = (matchers.account document matchers.names).resolved := by
  have hvalue : ∀ entry ∈ values, matchers.fresh document entry.1 = .ok entry.2 := by
    intro entry hentry
    have hname : entry.1 ∈ matchers.names := h.ordered ▸ List.mem_map_of_mem hentry
    obtain ⟨v, hget, hfresh⟩ := h.fresh entry.1 hname
    have hentry' := (Fields.get?_eq_some_iff (h.ordered ▸ hnodup)).2 hentry
    rw [hfresh, Option.some.inj (hget.symm.trans hentry')]
  rw [account, Fields.collect_of_nodup hnodup, ← h.ordered, Fields.names, List.filterMap_map]
  refine (List.map_id values).symm.trans ?_
  refine (List.filterMap_eq_map_iff_forall_eq_some.2 fun entry hentry => ?_).symm
  simp only [Function.comp_apply, hvalue entry hentry, Except.toOption, Option.map_some, id_eq]

/-- Stopping at the first failure among all names is resolving all. -/
theorem stopped_account_names (h : matchers.names.Nodup) :
    stopped (matchers.account document matchers.names) =
      (matchers.evaluate document).map fun values => ⟨values, []⟩ := by
  have hempty : Sound matchers document [] Session.empty := .empty
  obtain ⟨values, hcomplete, hgiven⟩ := exists_resolveAll_eq h hempty
  rw [evaluate, hgiven]
  cases hall : matchers.freshAll document matchers.names with
  | ok _ =>
    have hnone := failures_account_eq_nil (freshAll_eq_ok_iff.1 hall)
    rw [stopped_of_failures_nil hnone, (hcomplete hall).eq_account h]
    rfl
  | error e =>
    obtain ⟨before, name, after, hsplit, hbefore, hname⟩ := freshAll_eq_error_iff.1 hall
    have hfirst : (matchers.account document (before ++ [name])).failures = [(name, e)] := by
      rw [account_concat_error hname, Emission.withFailure, failures_account_eq_nil hbefore]
      rfl
    rw [hsplit, List.append_cons]
    exact stopped_append hfirst after

/-- Resolving each gives every name with what becomes of it in a session of its own. -/
theorem resolveEach_eq :
    (matchers.resolveEach document Session.empty).1 =
      matchers.names.map fun name => (name, matchers.fresh document name) := by
  have hcall := (matchers.call_yields document .resolveEach Session.empty Sound.empty).result
  exact Reply.results.inj hcall

/-- The account of all names keeps the values and the errors of each apart. -/
theorem account_names (h : matchers.names.Nodup) :
    let each := (matchers.resolveEach document Session.empty).1
    matchers.account document matchers.names =
      ⟨each.filterMap fun entry => entry.2.toOption.map fun v => (entry.1, v),
        each.filterMap fun entry => (errorOf? entry.2).map fun e => (entry.1, e)⟩ := by
  simp only [resolveEach_eq, List.filterMap_map, account, Fields.collect_of_nodup h]
  rfl

/-! ### Files of matchers -/

theorem nodup_names_of_read {expressions : List (String × String)}
    (h : Matchers.read expressions = .ok matchers) : matchers.names.Nodup := by
  obtain ⟨pipelines, _, h⟩ := bind_eq_ok.1 h
  cases h
  exact Fields.nodup_names_ofList pipelines

/-- The names that a file declares are distinct. -/
theorem nodup_names_of_load {format : Format} {text : String}
    (h : Matchers.load format text = .ok matchers) : matchers.names.Nodup := by
  obtain ⟨entries, _, h⟩ := bind_eq_ok.1 h
  by_cases hempty : entries.isEmpty
  · simp only [hempty, if_true] at h
    cases h
  · simp only [hempty] at h
    exact nodup_names_of_read (mapError_eq_ok.1 h)

end Matchers

/-! ### Requests -/

namespace EmissionRequest

/-- The texts of a request write matchers and a document. -/
def Loads (r : EmissionRequest) (matchers : Matchers) (document : Value) : Prop :=
  Matchers.load r.matchersFormat r.matchers = .ok matchers ∧
    ∃ text, r.input = some text ∧ Value.ofText r.inputFormat text .inSteps = .ok document

variable {r : EmissionRequest} {matchers : Matchers} {document : Value}

theorem run_of_loads (h : r.Loads matchers document) :
    r.run = (matchers.emit document r.names r.keepGoing).mapError Problem.evaluation := by
  obtain ⟨hload, text, hinput, hdocument⟩ := h
  simp only [run, hload, hinput, hdocument, bind, Except.bind]

end EmissionRequest

/-- An emission has a value or an error, and not both, for each name that is asked for, and nothing
for any other; each side is in the order in which its names first come, and each value or error is
that of a session of its own. -/
structure Emission.Accounts (matchers : Matchers) (document : Value) (asked : List String)
    (e : Emission) : Prop where
  names : ∀ name, name ∈ asked ↔ name ∈ e.resolved.names ∨ name ∈ e.failures.names
  apart : ∀ name ∈ e.resolved.names, name ∉ e.failures.names
  resolved_order : e.resolved.names.Sublist asked.eraseDups
  failures_order : e.failures.names.Sublist asked.eraseDups
  resolved_fresh : ∀ name v, (name, v) ∈ e.resolved → matchers.fresh document name = .ok v
  failures_fresh : ∀ name error, (name, error) ∈ e.failures →
    matchers.fresh document name = .error error

namespace Matchers

variable (matchers : Matchers) (document : Value)

theorem accounts_account (asked : List String) :
    (matchers.account document asked).Accounts matchers document asked := by
  have hresolved : ∀ name, name ∈ (matchers.account document asked).resolved.names ↔
      name ∈ asked ∧ ∃ v, matchers.fresh document name = .ok v := by
    intro name
    refine Fields.mem_names_collect.trans ?_
    cases matchers.fresh document name <;> simp [Except.toOption]
  have hfailures : ∀ name, name ∈ (matchers.account document asked).failures.names ↔
      name ∈ asked ∧ ∃ e, matchers.fresh document name = .error e := by
    intro name
    refine Fields.mem_names_collect.trans ?_
    cases matchers.fresh document name <;> simp [errorOf?]
  constructor
  · intro name
    rw [hresolved, hfailures]
    cases matchers.fresh document name <;> simp
  · intro name hname
    rw [hfailures]
    obtain ⟨_, v, hv⟩ := (hresolved name).1 hname
    simp [hv]
  · exact Fields.names_collect_sublist _ asked
  · exact Fields.names_collect_sublist _ asked
  · intro name v hmem
    have hfind := (Fields.mem_collect.1 hmem).2
    cases h : matchers.fresh document name <;> simp_all [Except.toOption]
  · intro name e hmem
    have hfind := (Fields.mem_collect.1 hmem).2
    cases h : matchers.fresh document name <;> simp_all [errorOf?]

end Matchers

namespace EmissionRequest

/-- When the texts of a request can be read, going on gives an account of all names that are asked
for, whether they are declared, come more than once or refer to each other. Stopping gives all of it
when nothing failed, and else the first of its failures. When no names are given, stopping is
resolving all, and going on keeps apart what resolving each gives. -/
theorem run_accounts (r : EmissionRequest) {matchers : Matchers} {document : Value}
    (h : r.Loads matchers document) :
    ∃ account : Emission, { r with keepGoing := true }.run = .ok account ∧
      account.Accounts matchers document (matchers.requested r.names) ∧
      { r with keepGoing := false }.run =
        (match account.failures with
        | [] => .ok ⟨account.resolved, []⟩
        | (_, e) :: _ => .error (.evaluation e)) ∧
      (r.names = [] →
        { r with keepGoing := false }.run =
          ((matchers.evaluate document).map fun values => ⟨values, []⟩).mapError
            Problem.evaluation ∧
        let each := (matchers.resolveEach document Session.empty).1
        account.resolved = each.filterMap (fun entry =>
          entry.2.toOption.map fun v => (entry.1, v)) ∧
        account.failures = each.filterMap (fun entry =>
          (errorOf? entry.2).map fun e => (entry.1, e))) := by
  have hnodup : matchers.names.Nodup := Matchers.nodup_names_of_load h.1
  have hgoing : { r with keepGoing := true }.run =
      .ok (matchers.account document (matchers.requested r.names)) := by
    rw [run_of_loads (show { r with keepGoing := true }.Loads matchers document from h)]
    exact congrArg (Except.mapError _) (Matchers.emit_going r.names)
  have hstopping : { r with keepGoing := false }.run =
      (Matchers.stopped (matchers.account document (matchers.requested r.names))).mapError
        Problem.evaluation := by
    rw [run_of_loads (show { r with keepGoing := false }.Loads matchers document from h)]
    exact congrArg (Except.mapError _) (Matchers.emit_stopping r.names)
  refine ⟨_, hgoing, matchers.accounts_account document _, ?_, fun hnames => ?_⟩
  · rw [hstopping]
    cases hfailures : (matchers.account document (matchers.requested r.names)).failures with
    | nil => rw [Matchers.stopped_of_failures_nil hfailures]; rfl
    | cons entry rest => rw [Matchers.stopped, hfailures]; rfl
  · have hasked : matchers.requested r.names = matchers.names := by rw [hnames]; rfl
    rw [hstopping, hasked, Matchers.stopped_account_names hnodup]
    rw [Matchers.account_names hnodup]
    exact ⟨rfl, rfl, rfl⟩

/-- A request for two names that fail and one that does not; one of them comes twice, and one of
them is not declared. -/
def mixed : EmissionRequest where
  matchers := "\x7b\"good\":\"x\",\"alias\":\"matchers.bad\",\"bad\":\"y.z\"\x7d"
  matchersFormat := .json
  input := some "\x7b\"x\":\"v\"\x7d"
  inputFormat := .json
  names := ["alias", "good", "alias", "none"]
  keepGoing := true

/-- The matchers of this request. -/
def mixedMatchers : Matchers :=
  [("good", ⟨⟨.filter, .path [.key "x"], none⟩, []⟩),
    ("alias", ⟨⟨.filter, .path [.key referenceWord, .key "bad"], none⟩, []⟩),
    ("bad", ⟨⟨.filter, .path [.key "y", .key "z"], none⟩, []⟩)]

/-- The document of this request. -/
def mixedDocument : Value := .mapping [("x", .string "v")]

/-- The second name fails with the error of the matcher it refers to. -/
theorem run_accounts_mixed :
    mixed.Loads mixedMatchers mixedDocument ∧
      ∃ account : Emission, mixed.run = .ok account ∧
        account.Accounts mixedMatchers mixedDocument mixed.names ∧
        account.resolved = [("good", .string "v")] ∧
        account.failures = [("alias", .walk (.notFound "y")), ("none", .unknownMatcher "none")] ∧
        { mixed with keepGoing := false }.run = .error (.evaluation (.walk (.notFound "y"))) := by
  have hload : Matchers.load mixed.matchersFormat mixed.matchers = .ok mixedMatchers := by cbv
  have hdocument : Value.ofText .json "\x7b\"x\":\"v\"\x7d" .inSteps = .ok mixedDocument := by
    cbv
  have hloads : mixed.Loads mixedMatchers mixedDocument := ⟨hload, _, rfl, hdocument⟩
  obtain ⟨account, hgoing, haccount, hstopping, _⟩ := run_accounts mixed hloads
  have hrun : mixed.run = .ok ⟨[("good", .string "v")],
      [("alias", .walk (.notFound "y")), ("none", .unknownMatcher "none")]⟩ := by cbv
  cases Except.ok.inj (hrun.symm.trans hgoing)
  exact ⟨hloads, _, hrun, haccount, rfl, rfl, hstopping⟩

end EmissionRequest

end DocMatch
