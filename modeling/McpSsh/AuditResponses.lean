import McpSsh.Lib.Json
import McpSsh.Text
import Mathlib.Algebra.Order.BigOperators.Group.List
import Mathlib.Algebra.Order.Group.Nat

/-!
# What the log service answers

A response of the service that keeps the audit record: its body comes by chunks
and is read up to a bound; what it says is JSON. How long a body is depends on
the lines in it, which are escaped there once more.
-/

namespace McpSsh.AuditHistory

/-- `RESPONSE_BYTES`. -/
def responseBytes : Nat := 48 <<< 20

/-- `ReadError`, as far as reading a page can fail with it. -/
inductive ReadError
  | unavailable
  | malformedResponse
  | malformedEntry
  | responseTooLarge
  | unpageableTimestamp
  | invalidWindow
  deriving DecidableEq, Repr

/-- What the source answers: streams of timestamps and lines. -/
structure LokiResponse where
  status : String
  resultType : String
  result : List (List (String × String))

/-- What comes of a request: whether there is a response with a status of
success, and its body by chunks, which may break off before it is whole. -/
structure Response where
  success : Bool
  chunks : List (List UInt8)
  whole : Bool

/-- `bounded_body`, with what was read so far. -/
def boundedBody (whole : Bool) (body : List UInt8) :
    List (List UInt8) → Except ReadError (List UInt8)
  | [] => if whole then .ok body else .error .unavailable
  | chunk :: chunks =>
    if responseBytes < body.length + chunk.length then .error .responseTooLarge
    else boundedBody whole (body ++ chunk) chunks

/-- The body of a response is too large to be read. -/
def Response.TooLarge (response : Response) : Prop :=
  responseBytes < response.chunks.flatten.length

/-- A whole body is read unless it is too large. -/
theorem boundedBody_whole {body : List UInt8} (small : body.length ≤ responseBytes)
    (chunks : List (List UInt8)) :
    boundedBody true body chunks =
      if responseBytes < (body ++ chunks.flatten).length then .error .responseTooLarge
      else .ok (body ++ chunks.flatten) := by
  induction chunks generalizing body with
  | nil =>
    rw [List.flatten_nil, List.append_nil, if_neg (Nat.not_lt.mpr small)]
    rfl
  | cons chunk chunks ih =>
    rw [boundedBody, List.flatten_cons, ← List.append_assoc]
    split
    case isTrue large =>
      rw [if_pos]
      rw [List.length_append, List.length_append]
      omega
    case isFalse fits => exact ih (by rw [List.length_append]; omega)

/-! ## A response in JSON -/

namespace LokiResponse

/-- A timestamp and its line. -/
def valueJson (value : String × String) : Json := .arr [.str value.1, .str value.2]

def streamJson (values : List (String × String)) : Json :=
  .obj [("values", .arr (values.map valueJson))]

/-- What the service says, with nothing about a stream but its values. -/
def toJson (response : LokiResponse) : Json := .obj [
  ("status", .str response.status),
  ("data", .obj [
    ("resultType", .str response.resultType),
    ("result", .arr (response.result.map streamJson))])]

def valueOf : Json → Option (String × String)
  | .arr [.str timestamp, .str line] => some (timestamp, line)
  | _ => none

def streamOf : Json → Option (List (String × String))
  | .obj members =>
    match Json.get members "values" with
    | some (.arr values) => values.mapM valueOf
    | _ => none
  | _ => none

/-- The fields that `serde` takes of a response, whatever else there is. -/
def ofJson : Json → Option LokiResponse
  | .obj members =>
    match Json.get members "status", Json.get members "data" with
    | some (.str status), some (.obj data) =>
      match Json.get data "resultType", Json.get data "result" with
      | some (.str resultType), some (.arr result) =>
        (result.mapM streamOf).map (⟨status, resultType, ·⟩)
      | _, _ => none
    | _, _ => none
  | _ => none

def body (response : LokiResponse) : List UInt8 := asBytes (String.ofList response.toJson.text)

def ofBody (bytes : List UInt8) : Option LokiResponse :=
  (String.fromUTF8? ⟨bytes.toArray⟩).bind fun text => (Json.parse text.toList).bind ofJson

theorem mapM_map {α β : Type} {write : α → β} {read : β → Option α}
    (reads : ∀ value, read (write value) = some value) (values : List α) :
    (values.map write).mapM read = some values := by
  induction values with
  | nil => rfl
  | cons value values ih =>
    rw [List.map_cons, List.mapM_cons, reads, ih]
    rfl

theorem streamOf_streamJson (values : List (String × String)) :
    streamOf (streamJson values) = some values :=
  @mapM_map _ _ valueJson valueOf (fun _ => rfl) values

theorem ofJson_toJson (response : LokiResponse) : ofJson response.toJson = some response := by
  change Option.map _ ((response.result.map streamJson).mapM streamOf) = _
  rw [mapM_map streamOf_streamJson]
  rfl

/-- What the service writes is read back. -/
theorem ofBody_body (response : LokiResponse) : ofBody response.body = some response := by
  have text (text : String) : String.fromUTF8? ⟨(asBytes text).toArray⟩ = some text :=
    dif_pos text.isValidUTF8
  unfold ofBody body
  rw [text, Option.bind_some, String.toList_ofList, Json.parse_text, Option.bind_some,
    ofJson_toJson]

/-! ## How long a body is -/

/-- One stream, with its timestamps and lines. -/
def ofStream (values : List (String × String)) : LokiResponse := ⟨"success", "streams", [values]⟩

theorem length_valueJson (value : String × String) :
    (valueJson value).text.length =
      (Json.escape value.1.toList).length + (Json.escape value.2.toList).length + 7 := by
  rw [valueJson, Json.length_text_arr]
  simp only [List.map_cons, List.map_nil, List.sum_cons, List.sum_nil, Json.length_text_str]
  omega

/-- What a line adds to the body, which is at least as long as the line escaped. -/
theorem length_streamJson (values : List (String × String)) :
    (values.map fun value => (Json.escape value.2.toList).length).sum ≤
        (streamJson values).text.length ∧
      (streamJson values).text.length ≤
        (values.map fun value => 6 * (value.1.length + value.2.length) + 8).sum + 20 := by
  have each (value : String × String) :
      (Json.escape value.2.toList).length ≤ (valueJson value).text.length + 1 ∧
        (valueJson value).text.length + 1 ≤ 6 * (value.1.length + value.2.length) + 8 := by
    have first := Json.length_escape_le value.1.toList
    have second := Json.length_escape_le value.2.toList
    rw [String.length_toList] at first second
    rw [length_valueJson]
    omega
  have key : (Json.escape "values".toList).length = 6 := by decide
  rw [streamJson, Json.length_text_obj, List.map_singleton, List.sum_singleton,
    Json.length_text_arr, List.map_map]
  dsimp only [Function.comp_def]
  rw [key]
  have low := List.sum_le_sum fun value (_ : value ∈ values) => (each value).1
  have high := List.sum_le_sum fun value (_ : value ∈ values) => (each value).2
  omega

theorem length_ofStream (values : List (String × String)) :
    (ofStream values).toJson.text.length = (streamJson values).text.length + 64 := by
  have keys : (Json.escape "status".toList).length = 6 ∧ (Json.escape "data".toList).length = 4 ∧
      (Json.escape "resultType".toList).length = 10 ∧ (Json.escape "result".toList).length = 6 ∧
      (Json.escape "success".toList).length = 7 ∧ (Json.escape "streams".toList).length = 7 := by
    decide
  obtain ⟨status, data, resultType, result, success, streams⟩ := keys
  rw [ofStream, toJson, Json.length_text_obj]
  simp only [List.map_cons, List.map_nil, List.sum_cons, List.sum_nil, Json.length_text_str,
    Json.length_text_obj, Json.length_text_arr, status, data, resultType, result, success, streams]
  omega

/-- A body is no shorter than its lines, escaped. -/
theorem lines_le_body (values : List (String × String)) :
    (values.map fun value => (Json.escape value.2.toList).length).sum ≤
      (ofStream values).body.length := by
  have text := (length_streamJson values).1
  have bytes := (asBytes_bounds (String.ofList (ofStream values).toJson.text)).1
  rw [String.length_ofList, length_ofStream] at bytes
  rw [body]
  omega

/-- Short lines make a short body. -/
theorem body_le {values : List (String × String)} {size : Nat}
    (short : ∀ value ∈ values, value.1.length + value.2.length ≤ size) :
    (ofStream values).body.length ≤ 4 * (values.length * (6 * size + 8) + 100) := by
  have text := (length_streamJson values).2
  have each := List.sum_le_card_nsmul
    (values.map fun value => 6 * (value.1.length + value.2.length) + 8) (6 * size + 8) (by
      intro length listed
      obtain ⟨value, among, rfl⟩ := List.mem_map.mp listed
      have fits := short value among
      omega)
  rw [List.length_map] at each
  change _ ≤ values.length * (6 * size + 8) at each
  have bytes := (asBytes_bounds (String.ofList (ofStream values).toJson.text)).2
  rw [String.length_ofList, length_ofStream] at bytes
  rw [body]
  omega

end LokiResponse

end McpSsh.AuditHistory
