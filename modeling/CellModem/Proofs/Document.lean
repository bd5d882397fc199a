import CellModem.Proofs.Json
import CellModem.Survey

/-!
The report as a JSON document. Which fields are known decides which members there are and where a
comma stands, so a document is described by the table of its fields, known or not. What the text
says is then determined by the grammar alone, and from what it says every field is found again.
-/

namespace CellModem

namespace Json

/-- The members of an object are the fields that are known, in order and with their values. -/
structure Lists (members : List (String × Value)) (fields : List (String × Option Value)) : Prop
    where
  names : members.map Prod.fst = (fields.filter fun field => field.2.isSome).map Prod.fst
  lookup : ∀ field ∈ fields, members.lookup field.1 = field.2

/-- The members that are there for the fields that are known. -/
def present (fields : List (String × Option Value)) : List (String × Value) :=
  fields.filterMap fun (name, value?) => value?.map fun value => (name, value)

variable {name : String} {fields others : List (String × Option Value)}
  {members : List (String × Value)}

theorem lookup_present_of_notMem (h : name ∉ fields.map Prod.fst) :
    (present fields).lookup name = none := by
  rw [List.lookup_eq_none_iff]
  intro member hmember
  obtain ⟨field, hfield, hvalue⟩ := List.mem_filterMap.mp hmember
  obtain ⟨value, -, rfl⟩ := Option.map_eq_some_iff.mp hvalue
  rw [bne_iff_ne]
  rintro rfl
  exact h (List.mem_map_of_mem hfield)

/-- No name stands for two fields, so each is found under its own. -/
theorem Lists.present (h : (fields.map Prod.fst).Nodup) : Lists (present fields) fields := by
  induction fields with
  | nil => exact ⟨rfl, nofun⟩
  | cons field fields ih =>
    obtain ⟨name, value?⟩ := field
    obtain ⟨hname, hnodup⟩ : name ∉ fields.map Prod.fst ∧ _ := List.nodup_cons.mp h
    have hlater := ih hnodup
    cases value? with
    | none =>
      have hmissing := lookup_present_of_notMem hname
      refine ⟨hlater.names, fun field hfield => ?_⟩
      obtain rfl | hfield := List.mem_cons.mp hfield
      · exact hmissing
      · exact hlater.lookup field hfield
    | some value =>
      refine ⟨congrArg (name :: ·) hlater.names, fun field hfield => ?_⟩
      obtain rfl | hfield := List.mem_cons.mp hfield
      · exact List.lookup_cons_self
      · have hne : (field.1 == name) = false :=
          beq_false_of_ne fun heq => hname (List.mem_map.mpr ⟨field, hfield, heq⟩)
        rw [← hlater.lookup field hfield]
        simp [Json.present, List.lookup_cons, hne]

/-- The members and the names of all fields tell what each of them is. -/
theorem Lists.unique (h : Lists members fields) (hother : Lists members others)
    (hnames : fields.map Prod.fst = others.map Prod.fst) : fields = others := by
  have hfields {fields : List (String × Option Value)} (h : Lists members fields) :
      fields = (fields.map Prod.fst).map fun name => (name, members.lookup name) := by
    rw [List.map_map]
    exact (List.map_id _).symm.trans
      (List.map_congr_left fun field hfield => by simp [h.lookup field hfield])
  rw [hfields h, hfields hother, hnames]

/-- What is left out can be told from what is there. -/
theorem eq_of_present_eq (hnodup : (fields.map Prod.fst).Nodup)
    (h : present fields = present others) (hnames : fields.map Prod.fst = others.map Prod.fst) :
    fields = others := by
  have hothers : Lists (present others) others := .present (hnames ▸ hnodup)
  rw [← h] at hothers
  exact (Lists.present hnodup).unique hothers hnames

/-- An object of what is present says what is known. -/
theorem value_ofPresent (members : List (String × Option Json)) :
    (ofPresent members).value =
      .object (present (members.map fun (name, json?) => (name, json?.map value))) := by
  rw [ofPresent, value_object, present, List.map_filterMap, List.filterMap_map]
  congr 2
  funext member
  simp only [Function.comp_apply, Option.map_map]
  rfl

end Json

namespace Survey

def shortValue (v : UInt16) : Json.Value :=
  .number v.toNat

def wordValue (v : UInt32) : Json.Value :=
  .number v.toNat

/-- What may be known of the network. The operator has no place in the document. -/
def Network.fields (network : Network) : List (String × Option Json.Value) :=
  [("curBand", network.currentBand.map shortValue),
    ("supBands", network.supportedBands.map .text),
    ("areaCode", network.areaCode.map wordValue),
    ("mcc", network.countryCode.map shortValue),
    ("mnc", network.networkCode.map shortValue),
    ("ipAdr", network.ipAddress.map .text),
    ("ueMode", network.ueMode.map shortValue),
    ("cellID", network.cellId.map wordValue),
    ("lteMode", network.lteMode.map .flag),
    ("nbiotMode", network.nbiotMode.map .flag),
    ("gpsMode", network.gpsMode.map .flag)]

def Sim.fields (sim : Sim) : List (String × Option Json.Value) :=
  [("uiccState", sim.uiccState.map shortValue), ("iccid", sim.iccid.map .text)]

/-- What may be known of the device, and the three texts that always are. -/
def Device.fields (device : Device) : List (String × Option Json.Value) :=
  [("mFW", device.firmware.map .text),
    ("btryVolt", device.battery.map shortValue),
    ("board", some (.text device.board)),
    ("appVersion", some (.text device.appVersion)),
    ("appName", some (.text device.appName))]

section Fields

@[simp] theorem value_shortJson (v : UInt16) : (shortJson v).value = shortValue v :=
  Json.value_number _

@[simp] theorem value_wordJson (v : UInt32) : (wordJson v).value = wordValue v :=
  Json.value_number _

theorem Network.value_toJson (network : Network) :
    network.toJson.value = .object (Json.present network.fields) := by
  simp [toJson, fields, Json.value_ofPresent, Function.comp_def]

theorem Sim.value_toJson (sim : Sim) :
    sim.toJson.value = .object (Json.present sim.fields) := by
  simp [toJson, fields, Json.value_ofPresent, Function.comp_def]

theorem Device.value_toJson (device : Device) :
    device.toJson.value = .object (Json.present device.fields) := by
  simp [toJson, fields, Json.value_ofPresent, Function.comp_def]

-- no two values of one kind look the same in a document
@[simp] theorem map_shortValue_inj {v w : Option UInt16} :
    v.map shortValue = w.map shortValue ↔ v = w :=
  (Option.map_injective fun _ _ h =>
    UInt16.toNat_inj.mp (Nat.cast_injective (Json.Value.number.inj h))).eq_iff

@[simp] theorem map_wordValue_inj {v w : Option UInt32} :
    v.map wordValue = w.map wordValue ↔ v = w :=
  (Option.map_injective fun _ _ h =>
    UInt32.toNat_inj.mp (Nat.cast_injective (Json.Value.number.inj h))).eq_iff

@[simp] theorem map_text_inj {s t : Option String} :
    s.map Json.Value.text = t.map Json.Value.text ↔ s = t :=
  (Option.map_injective fun _ _ => Json.Value.text.inj).eq_iff

@[simp] theorem map_flag_inj {a b : Option Bool} :
    a.map Json.Value.flag = b.map Json.Value.flag ↔ a = b :=
  (Option.map_injective fun _ _ => Json.Value.flag.inj).eq_iff

theorem Network.nodup_fields (network : Network) : (network.fields.map Prod.fst).Nodup := by
  simp [fields]

theorem Sim.nodup_fields (sim : Sim) : (sim.fields.map Prod.fst).Nodup := by
  simp [fields]

theorem Device.nodup_fields (device : Device) : (device.fields.map Prod.fst).Nodup := by
  simp [fields]

/-- All of a network but the operator is found in its fields. -/
theorem Network.eq_of_present {network other : Network}
    (h : Json.present network.fields = Json.present other.fields) :
    { network with operator := none } = { other with operator := none } := by
  simpa [fields] using Json.eq_of_present_eq network.nodup_fields h rfl

theorem Sim.eq_of_present {sim other : Sim}
    (h : Json.present sim.fields = Json.present other.fields) : sim = other := by
  cases sim
  cases other
  simpa [fields] using Json.eq_of_present_eq (nodup_fields _) h rfl

theorem Device.eq_of_present {device other : Device}
    (h : Json.present device.fields = Json.present other.fields) : device = other := by
  cases device
  cases other
  simpa [fields] using Json.eq_of_present_eq (nodup_fields _) h rfl

end Fields

/-- A report without the operator. -/
def withoutOperator (survey : Survey) : Survey :=
  { survey with network := { survey.network with operator := none } }

/-- What the text of a report says. -/
theorem says_render_iff (survey : Survey) (v : Json.Value) :
    Json.Says survey.render v ↔ v = .object
      [("networkInfo", .object (Json.present survey.network.fields)),
        ("simInfo", .object (Json.present survey.sim.fields)),
        ("deviceInfo", .object (Json.present survey.device.fields))] := by
  rw [render, Json.says_render_iff, toJson, Json.value_object]
  simp only [List.map_cons, List.map_nil, Network.value_toJson, Sim.value_toJson,
    Device.value_toJson]

/-- A text is the report of one network, card and device, the operator apart. -/
theorem render_eq_iff {survey other : Survey} :
    survey.render = other.render ↔ survey.withoutOperator = other.withoutOperator := by
  constructor
  · intro h
    have hsays := (says_render_iff survey _).mpr rfl
    rw [h, says_render_iff other] at hsays
    simp only [Json.Value.object.injEq, List.cons.injEq, Prod.mk.injEq, true_and, and_true]
      at hsays
    obtain ⟨hnetwork, hsim, hdevice⟩ := hsays
    rw [withoutOperator, withoutOperator, Network.eq_of_present hnetwork, Sim.eq_of_present hsim,
      Device.eq_of_present hdevice]
  · exact congrArg render

-- a name of an application that would end its text, the object and the report
example : render { device := { appName := "\"\x7d\x7d" } } =
    "\x7b\"networkInfo\":\x7b\x7d,\"simInfo\":\x7b\x7d,\"deviceInfo\":" ++
      "\x7b\"board\":\"\",\"appVersion\":\"\",\"appName\":\"\\\"\x7d\x7d\"\x7d\x7d" := by
  cbv

/-- What is written is all of the text, in front of what stands behind it. -/
theorem encode_eq_ok_iff {survey : Survey} {dest written : Octets} {n : Nat} :
    survey.encode dest = (.ok n, written) ↔
      (Octets.ofText survey.render).length ≤ dest.length ∧
        n = (Octets.ofText survey.render).length ∧
        written = Octets.ofText survey.render ++ dest.drop n := by
  have hcopied : survey.encode dest = (.ok n, written) ↔
      n = (Octets.ofText survey.render).length ∧
        dest.overwriteFront? (Octets.ofText survey.render) = some written := by
    rw [encode]
    cases dest.overwriteFront? (Octets.ofText survey.render) with
    | none => simp
    | some copied => simp [eq_comm]
  rw [hcopied, Octets.overwriteFront?_eq_some_iff]
  constructor
  · rintro ⟨rfl, hroom, rfl⟩
    exact ⟨hroom, rfl, rfl⟩
  · rintro ⟨hroom, rfl, rfl⟩
    exact ⟨rfl, hroom, rfl⟩

theorem encode_of_lt {survey : Survey} {dest : Octets}
    (h : dest.length < (Octets.ofText survey.render).length) :
    survey.encode dest = (.error .bufferTooSmall, dest) := by
  simp only [encode, Octets.overwriteFront?, if_neg (Nat.not_le.mpr h)]

/-- The report as JSON is an object of three, each with the fields that are known, and it says
nothing else; so all but the operator is told by its text. The text goes to the front of a
destination if there is room for all of it, and otherwise nothing is written. -/
theorem render_faithful (survey : Survey) :
    (∃ network sim device : List (String × Json.Value),
      (∀ v, Json.Says survey.render v ↔ v = .object
        [("networkInfo", .object network), ("simInfo", .object sim),
          ("deviceInfo", .object device)]) ∧
      Json.Lists network survey.network.fields ∧ Json.Lists sim survey.sim.fields ∧
      Json.Lists device survey.device.fields) ∧
    (∀ other : Survey, survey.render = other.render ↔
      survey.withoutOperator = other.withoutOperator) ∧
    ∀ dest : Octets,
      let text := Octets.ofText survey.render
      ((∃ n written, survey.encode dest = (.ok n, written)) ↔ text.length ≤ dest.length) ∧
      (∀ n written, survey.encode dest = (.ok n, written) →
        n = text.length ∧ written.take n = text ∧ written.drop n = dest.drop n) ∧
      (dest.length < text.length → survey.encode dest = (.error .bufferTooSmall, dest)) := by
  refine ⟨⟨_, _, _, says_render_iff survey, .present survey.network.nodup_fields,
    .present survey.sim.nodup_fields, .present survey.device.nodup_fields⟩,
    fun _ => render_eq_iff, fun dest => ⟨?fits, ?written, encode_of_lt⟩⟩
  case fits => simp [encode_eq_ok_iff]
  case written =>
    intro n written h
    obtain ⟨-, rfl, rfl⟩ := encode_eq_ok_iff.mp h
    exact ⟨rfl, List.take_left, List.drop_left⟩

end Survey

end CellModem
