import CellModem.Proofs.Survey

/-!
The two ways from the operator to its codes. The report asks for the operator as text and takes it
apart; to ask for a code is to take apart the parameter that holds the operator. They agree if that
parameter is a text. A bare numeral is a number to begin with: it is an operator like any other once
it has been written out, but no code is found in it.
-/

namespace CellModem

theorem Parameter.exists_eq_text {p : Parameter} (h : p.kind = .text) : ∃ s, p = .text s := by
  cases p with
  | text s => exact ⟨s, rfl⟩
  | empty | short v | int v => cases h

namespace Statement

/-- A field of digits alone, small enough to be kept as a number. -/
def Field.IsNumber (field : Field) : Prop :=
  ∃ word v, field = .bare word ∧ Numeral.decimalValue? (Text.trimEnd word) = some v ∧ v < 4294967296

/-- What is stored of a field is a text unless the field is empty or a number. -/
theorem Field.isNumber_iff_of_parameter? {field : Field} {p : Parameter}
    (h : field.parameter? = some p) (hp : p.isEmpty = false) :
    field.IsNumber ↔ p.kind ≠ .text := by
  cases field with
  | absent =>
    cases h
    cases hp
  | quoted inner => simp [IsNumber, Parameter.eq_text_of_ofText? h, Parameter.kind]
  | listed inner => simp [IsNumber, Parameter.eq_text_of_ofText? h, Parameter.kind]
  | bare word =>
    have hiff : (Field.bare word).IsNumber ↔
        ∃ v, Numeral.decimalValue? (Text.trimEnd word) = some v ∧ v < 4294967296 := by
      simp [IsNumber]
    rw [hiff]
    simp only [parameter?] at h
    split at h
    case isTrue =>
      cases h
      cases hp
    case isFalse =>
      unfold wordParameter? at h
      cases hv : Numeral.decimalValue? (Text.trimEnd word) with
      | none =>
        simp only [hv] at h
        simp [Parameter.eq_text_of_ofText? h, Parameter.kind]
      | some v =>
        simp only [hv] at h
        split at h
        case isTrue hshort =>
          cases h
          simp only [Option.some.injEq, exists_eq_left', Parameter.kind]
          simp
          omega
        case isFalse hlong =>
          split at h
          case isTrue hint =>
            cases h
            simp [Parameter.kind, hint]
          case isFalse hlarge =>
            simp [Parameter.eq_text_of_ofText? h, Parameter.kind]
            omega

end Statement

namespace Query

variable {limit : Nat}

/-- Queries that read a response alike decode parameters of the same slots. -/
theorem answer_of_load (query : Query) {other : Query} (hcommand : query.command = other.command)
    (hprefixed : query.prefixed = other.prefixed) (hcount : query.count = other.count)
    {response : List Char} {slots after : Slots limit}
    (hload : other.load response slots = (.ok (), after)) :
    query.answer response slots = (query.value after, after) := by
  unfold answer
  rw [load_congr hcommand hprefixed hcount, hload]

/-- A parameter that is a text has the codes of that text, or neither of them. -/
theorem decode_codes_iff (s : String) (country network : UInt16) :
    Item.countryCode.query.decode (.text s) = .ok (.number country) ∧
        Item.networkCode.query.decode (.text s) = .ok (.number network) ↔
      Code.NetworkCode.ofOperator s = .ok ⟨country, network⟩ := by
  have hcountry : Item.countryCode.query.decode (.text s) = do
      return .number (← Code.NetworkCode.ofOperator s).country := rfl
  have hnetwork : Item.networkCode.query.decode (.text s) = do
      return .number (← Code.NetworkCode.ofOperator s).network := rfl
  rw [hcountry, hnetwork]
  cases Code.NetworkCode.ofOperator s with
  | error cause => simp [bind, Except.bind]
  | ok codes =>
    obtain ⟨m, n⟩ := codes
    simp [bind, Except.bind, pure, Except.pure]

/-- Any other parameter has none. -/
theorem decode_codes_of_kind {p : Parameter} (h : p.kind ≠ .text) :
    Item.countryCode.query.decode p = .error .typeMismatch ∧
      Item.networkCode.query.decode p = .error .typeMismatch := by
  cases p with
  | text s => exact absurd rfl h
  | empty | short v | int v => exact ⟨rfl, rfl⟩

/-- All three queries decode the parameter that one field of the response stands for. -/
theorem answer_of_operator {response : List Char} {slots after : Slots limit} {value : Value}
    (hanswer : Item.operator.query.answer response slots = (.ok value, after)) :
    ∃ statement field p, Item.operator.query.statement? response = some statement ∧
      (Statement.scan Item.operator.query.count statement).fields[Item.operator.query.index]? =
        some field ∧
      field.parameter? = some p ∧ p.isEmpty = false ∧
      Item.operator.query.decode p = .ok value ∧
      Item.countryCode.query.answer response slots = (Item.countryCode.query.decode p, after) ∧
      Item.networkCode.query.answer response slots = (Item.networkCode.query.decode p, after) := by
  obtain ⟨hload, hvalue⟩ := answer_eq_ok_iff.mp hanswer
  have hcountry := Item.countryCode.query.answer_of_load rfl rfl rfl hload
  have hnetwork := Item.networkCode.query.answer_of_load rfl rfl rfl hload
  obtain ⟨statement, params, hstatement, hlength, hpresents, -, -, rfl⟩ :=
    load_eq_ok_iff_presents.mp hload
  have hindex : Item.operator.query.index < params.length := by
    rw [hlength]
    decide
  obtain ⟨field, hfield, hp⟩ := hpresents.field hindex
  rw [hlength] at hfield
  rw [value_fill slots hindex] at hvalue
  rw [@value_fill _ Item.countryCode.query slots _ hindex] at hcountry
  rw [@value_fill _ Item.networkCode.query slots _ hindex] at hnetwork
  exact ⟨statement, field, _, hstatement, hfield, hp,
    hpresents.present _ (List.getElem_mem hindex), hvalue, hcountry, hnetwork⟩

end Query

namespace Survey

/-- The operator of a response is a text for the report, which takes its codes out of that text.
Asking for each of the codes finds the same in the same response, with one exception: an operator
that is a bare number and has codes. Whoever asks for a code is told then that the parameter is of
the wrong kind. -/
theorem operator_codes {limit : Nat} {response : List Char} {slots after : Slots limit} {s : String}
    (hanswer : Item.operator.query.answer response slots = (.ok (.text s), after)) :
    (∀ (client last : Client) {τ : Type} [Transport τ] (changes : List (Station τ → Station τ))
      (station : Station τ) (survey : Survey) (failures : Failures),
      (Course.amid Conversation.step changes { program := fetch.run client } station).1 =
          .finished ((survey, failures), last) →
        survey.network.operator = some s →
          survey.network.countryCode = (Code.NetworkCode.ofOperator s).toOption.map (·.country) ∧
            survey.network.networkCode =
              (Code.NetworkCode.ofOperator s).toOption.map (·.network)) ∧
    ∃ statement field, Item.operator.query.statement? response = some statement ∧
      (Statement.scan Item.operator.query.count statement).fields[Item.operator.query.index]? =
        some field ∧
      (field.IsNumber →
        Item.countryCode.query.answer response slots = (.error .typeMismatch, after) ∧
          Item.networkCode.query.answer response slots = (.error .typeMismatch, after)) ∧
      ((∀ country network,
          Item.countryCode.query.answer response slots = (.ok (.number country), after) ∧
              Item.networkCode.query.answer response slots = (.ok (.number network), after) ↔
            Code.NetworkCode.ofOperator s = .ok ⟨country, network⟩) ↔
        ¬(field.IsNumber ∧ ∃ codes, Code.NetworkCode.ofOperator s = .ok codes)) := by
  constructor
  · intro client last τ _ changes station survey failures hfinished hoperator
    obtain ⟨-, news, -, -, hcountry, hnetwork⟩ :=
      Conversation.post_of_finished (collect_collects [] client) hfinished
    have hcodes : survey.network.codes = (Code.NetworkCode.ofOperator s).toOption := by
      simp only [Network.codes, hoperator, Option.bind_some]
    rw [← hcodes]
    exact ⟨hcountry, hnetwork⟩
  · obtain ⟨statement, field, p, hstatement, hfield, hp, hpresent, hvalue, hcountry, hnetwork⟩ :=
      Query.answer_of_operator hanswer
    have hnumber := Statement.Field.isNumber_iff_of_parameter? hp hpresent
    have hmismatch : field.IsNumber →
        Item.countryCode.query.answer response slots = (.error .typeMismatch, after) ∧
          Item.networkCode.query.answer response slots = (.error .typeMismatch, after) := by
      intro his
      obtain ⟨hnone, hnone'⟩ := Query.decode_codes_of_kind (hnumber.mp his)
      rw [hcountry, hnetwork, hnone, hnone']
      exact ⟨rfl, rfl⟩
    refine ⟨statement, field, hstatement, hfield, hmismatch, fun hagree => ?_, fun hnot => ?_⟩
    · rintro ⟨his, ⟨country, network⟩, hcodes⟩
      have hfound := (hagree country network).mpr hcodes
      rw [(hmismatch his).1] at hfound
      cases hfound.1
    · intro country network
      by_cases his : field.IsNumber
      · rw [(hmismatch his).1]
        exact ⟨fun h => (by cases h.1), fun hcodes => absurd ⟨his, _, hcodes⟩ hnot⟩
      · obtain ⟨t, rfl⟩ := Parameter.exists_eq_text (not_not.mp (mt hnumber.mpr his))
        obtain rfl : t = s := Value.text.inj (Except.ok.inj hvalue)
        rw [hcountry, hnetwork, Prod.mk.injEq, Prod.mk.injEq, and_iff_left rfl, and_iff_left rfl]
        exact Query.decode_codes_iff t country network

/-- An operator without quotation marks: the report has its codes, and neither is found alone. -/
theorem operator_codes_bare :
    let response := "+COPS: 0,2,24201,7".toList
    let slots : Slots Limits.parameters := .full
    let after := slots.fill [.short 0, .short 2, .short 24201, .short 7]
    Item.operator.query.answer response slots = (.ok (.text "24201"), after) ∧
      Code.NetworkCode.ofOperator "24201" = .ok ⟨242, 1⟩ ∧
      Item.countryCode.query.answer response slots = (.error .typeMismatch, after) ∧
      Item.networkCode.query.answer response slots = (.error .typeMismatch, after) := by
  intro response slots after
  have hanswer : Item.operator.query.answer response slots = (.ok (.text "24201"), after) := by
    decide +kernel
  obtain ⟨-, statement, field, hstatement, hfield, hmismatch, -⟩ := operator_codes hanswer
  have hread : Item.operator.query.statement? response = some " 0,2,24201,7".toList := by decide
  obtain rfl := Option.some.inj (hread.symm.trans hstatement)
  have hbare : (Statement.scan Item.operator.query.count " 0,2,24201,7".toList).fields[
      Item.operator.query.index]? = some (.bare "24201".toList) := by decide
  obtain rfl := Option.some.inj (hbare.symm.trans hfield)
  exact ⟨hanswer, by decide, hmismatch ⟨"24201".toList, 24201, rfl, by decide, by decide⟩⟩

end Survey

end CellModem
