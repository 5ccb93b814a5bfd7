-- The row that a completed answer leaves (sender/main.py: `store_usage_metrics`). The
-- `try` covers the parse of the body; the reads of the parsed value stand behind it, so a
-- value of another shape than an object with a usage object raises before the insert.
import AristoteDispatcher.Usage

open json pytext

namespace aristote_dispatcher.usage

/-- The end of `store_usage_metrics`: what it raises, and the rows of the table behind it. The
database accepts the row. -/
def insert_usage_metrics (metrics : List Metric) (response_body : ByteArray) (stream : Bool) :
    Except Exn Unit × List Metric :=
  match store_usage_metrics response_body stream with
  | .error e => (.error e, metrics)
  | .ok metric => (.ok (), metrics ++ [metric])

/-- The JSON value of a body: that of the whole body, or of a stream that of the last chunk,
without its end marks, or that of the chunk before when the last one is just the mark. -/
inductive Holds (body : ByteArray) : Bool → Json → Prop
  | whole {data : Json} (h : loads_bytes body = .ok data) : Holds body false data
  | last {data : Json} {text : String} {chunks : List (List Char)} {chunk : List Char}
    (htext : String.fromUTF8? body = some text)
    (hchunks : splitOn dataField text.toList = chunks ++ [chunk]) (hchunk : strip chunk ≠ done)
    (h : loads (String.ofList (replace done [] chunk)) = some data) : Holds body true data
  | ended {data : Json} {text : String} {chunks : List (List Char)} {chunk mark : List Char}
    (htext : String.fromUTF8? body = some text)
    (hchunks : splitOn dataField text.toList = chunks ++ [chunk, mark])
    (hmark : strip mark = done)
    (h : loads (String.ofList chunk) = some data) : Holds body true data

/-- The value is an object, and its usage, when it has one, is an object too. -/
def Readable (data : Json) : Prop :=
  ∃ members, data = .obj members ∧
    ∀ v, members.lookup (.ofString "usage") = some v → ∃ usage, v = .obj usage

/-- The value is an object with a usage object. -/
def UsageIs (data : Json) (usage : List (PyStr × Json)) : Prop :=
  ∃ members, data = .obj members ∧ members.lookup (.ofString "usage") = some (.obj usage)

/-- What a completed answer must leave: no exception, and one row, whose counts are those of
the usage, or None when no usage can be read. -/
def LeavesOneRow (metrics : List Metric) (body : ByteArray) (stream : Bool) : Prop :=
  ∃ row, insert_usage_metrics metrics body stream = (.ok (), metrics ++ [row]) ∧
    (∀ data usage, Holds body stream data → UsageIs data usage →
      row = ⟨getOr usage "prompt_tokens" .null, getOr usage "completion_tokens" .null⟩) ∧
    ((¬ ∃ data usage, Holds body stream data ∧ UsageIs data usage) → row = ⟨.null, .null⟩)

/-! ## What is parsed, and what is read of it -/

theorem holds_of_response_data {body : ByteArray} {stream : Bool} {data : Json}
    (h : response_data? body stream = some data) : Holds body stream data := by
  cases stream with
  | false =>
    rw [response_data?, if_neg (by decide)] at h
    cases hloads : loads_bytes body with
    | error e =>
      rw [hloads] at h
      cases h
    | ok v =>
      rw [hloads] at h
      cases h
      exact .whole hloads
  | true =>
    rw [response_data?, if_pos rfl] at h
    obtain ⟨text, htext, h⟩ := Option.bind_eq_some_iff.mp h
    dsimp only at h
    split at h
    · cases h
    · rename_i last hlast
      obtain ⟨chunks, hchunks⟩ := List.getLast?_eq_some_iff.mp hlast
      split at h
      · rename_i hne
        exact .last htext hchunks hne h
      · rename_i hmark
        obtain ⟨chunk, hchunk, h⟩ := Option.bind_eq_some_iff.mp h
        rw [hchunks, List.dropLast_concat] at hchunk
        obtain ⟨front, rfl⟩ := List.getLast?_eq_some_iff.mp hchunk
        have hboth : splitOn dataField text.toList = front ++ [chunk, last] := by
          rw [hchunks, List.append_assoc]
          rfl
        exact .ended htext hboth (not_not.mp hmark) h

theorem response_data_of_holds {body : ByteArray} {stream : Bool} {data : Json}
    (h : Holds body stream data) : response_data? body stream = some data := by
  unfold response_data?
  cases h with
  | whole h =>
    rw [if_neg (by decide), h]
    rfl
  | last htext hchunks hchunk h =>
    simp only [if_pos, htext, Option.bind_some, hchunks, List.getLast?_concat]
    rw [if_pos hchunk, h]
  | @ended data text chunks chunk mark htext hchunks hmark h =>
    have hsnoc : chunks ++ [chunk, mark] = chunks ++ [chunk] ++ [mark] := by simp
    rw [hsnoc] at hchunks
    simp only [if_pos, htext, Option.bind_some, hchunks, List.getLast?_concat,
      List.dropLast_concat]
    rw [if_neg (not_not.mpr hmark), h]

/-- A body has at most one value. -/
theorem holds_iff {body : ByteArray} {stream : Bool} {data : Json} :
    Holds body stream data ↔ response_data? body stream = some data :=
  ⟨response_data_of_holds, holds_of_response_data⟩

/-- The reads succeed on just the readable values. -/
theorem usage_of_isOk_iff {data : Json} : (∃ row, usage_of data = .ok row) ↔ Readable data := by
  cases data with
  | obj members =>
    unfold Readable usage_of
    cases hlookup : members.lookup (.ofString "usage") with
    | none =>
      simp [get, getOr, hlookup, bind, Except.bind, pure, Except.pure]
    | some v =>
      cases v <;> simp [get, getOr, hlookup, bind, Except.bind, pure, Except.pure]
  | _ =>
    refine iff_of_false ?_ ?_
    · rintro ⟨row, h⟩
      cases h
    · rintro ⟨members, h, _⟩
      cases h

theorem usage_of_usageIs {data : Json} {usage : List (PyStr × Json)} (h : UsageIs data usage) :
    usage_of data =
      .ok ⟨getOr usage "prompt_tokens" .null, getOr usage "completion_tokens" .null⟩ := by
  obtain ⟨members, rfl, husage⟩ := h
  simp [usage_of, get, getOr, husage, bind, Except.bind, pure, Except.pure]

/-- Without a usage object the counts are None. -/
theorem usage_of_no_usage {data : Json} {row : Metric} (h : usage_of data = .ok row)
    (hno : ¬ ∃ usage, UsageIs data usage) : row = ⟨.null, .null⟩ := by
  obtain ⟨members, rfl, hobj⟩ := usage_of_isOk_iff.mp ⟨row, h⟩
  cases hlookup : members.lookup (.ofString "usage") with
  | none =>
    have hempty : usage_of (.obj members) = .ok ⟨.null, .null⟩ := by
      simp [usage_of, get, getOr, hlookup, bind, Except.bind, pure, Except.pure]
    rw [hempty] at h
    exact (Except.ok.inj h).symm
  | some v =>
    obtain ⟨usage, rfl⟩ := hobj v hlookup
    exact absurd ⟨usage, members, rfl, hlookup⟩ hno

/-! ## The row -/

theorem insert_eq_ok_iff {metrics : List Metric} {body : ByteArray} {stream : Bool}
    {row : Metric} :
    insert_usage_metrics metrics body stream = (.ok (), metrics ++ [row]) ↔
      store_usage_metrics body stream = .ok row := by
  unfold insert_usage_metrics
  cases store_usage_metrics body stream with
  | error e => simp
  | ok metric => simp

/-- A completed answer leaves its row exactly when the value of its body, if it has one, is an
object whose usage, if it has one, is an object. -/
theorem one_row_is_left_iff_the_usage_is_readable (metrics : List Metric) (body : ByteArray)
    (stream : Bool) :
    LeavesOneRow metrics body stream ↔ ∀ data, Holds body stream data → Readable data := by
  simp only [LeavesOneRow, insert_eq_ok_iff, holds_iff, store_usage_metrics]
  cases hdata : response_data? body stream with
  | none =>
    refine iff_of_true ⟨⟨.null, .null⟩, rfl, ?_, fun _ => rfl⟩ ?_
    · intro data usage h
      cases h
    · intro data h
      cases h
  | some data =>
    simp only [Option.getD_some, Option.some.injEq]
    constructor
    · rintro ⟨row, hrow, _⟩ data' rfl
      exact usage_of_isOk_iff.mp ⟨row, hrow⟩
    · intro h
      obtain ⟨row, hrow⟩ := usage_of_isOk_iff.mpr (h data rfl)
      refine ⟨row, hrow, ?_, ?_⟩
      · rintro data' usage rfl husage
        rw [usage_of_usageIs husage] at hrow
        exact (Except.ok.inj hrow).symm
      · intro hno
        refine usage_of_no_usage hrow ?_
        rintro ⟨usage, husage⟩
        exact hno ⟨data, usage, rfl, husage⟩

/-- An answer whose usage is null. -/
def nullUsage : String := "\x7b\"usage\": null\x7d"

set_option maxRecDepth 10000 in
theorem loads_nullUsage : loads nullUsage = some (.obj [(.ofString "usage", .null)]) := rfl

/-- The answer of a null usage raises, and its row is lost. -/
theorem a_null_usage_leaves_no_row :
    ¬ ∀ (metrics : List Metric) (body : ByteArray) (stream : Bool),
      LeavesOneRow metrics body stream := by
  intro h
  obtain ⟨row, hrow, _⟩ := h [] nullUsage.toUTF8 false
  have hdata := response_data_of_holds (.whole (loads_bytes_toUTF8 loads_nullUsage))
  rw [insert_eq_ok_iff, store_usage_metrics, hdata] at hrow
  cases hrow

end aristote_dispatcher.usage
