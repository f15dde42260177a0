import WageringProcessor.Library.Base64
import WageringProcessor.Persistence.Database

/-!
# Cursors

`cursor.ts`, with the text that `Date.prototype.toISOString` prints.
-/

namespace WageringProcessor.Pagination

open Library.JsonText Library.Base64

/-- What reading a cursor uses of the platform: the text that stands for bytes that are not UTF-8,
and the `timestamptz` type of the database. -/
structure CursorPlatform extends Platform where
  replacedText : List UInt8 → String
  timestamptz : String → Option Date

structure LedgerCursor where
  createdAt : String
  id : String
deriving DecidableEq, Repr

def LedgerCursor.toJson (cursor : LedgerCursor) : Json :=
  .object [("createdAt", .string cursor.createdAt), ("id", .string cursor.id)]

/-- `Buffer.from(text, "utf8")`. -/
def utf8Bytes (text : String) : List UInt8 := text.toUTF8.data.toList

/-- `Buffer.toString("utf8")`. -/
def utf8Text (P : CursorPlatform) (bytes : List UInt8) : String :=
  (String.fromUTF8? ⟨bytes.toArray⟩).getD (P.replacedText bytes)

def encodeCursor (cursor : LedgerCursor) : String := encode (utf8Bytes (stringify cursor.toJson))

def decodeCursor (P : CursorPlatform) (value : String) : Except DomainError LedgerCursor :=
  match P.jsonParse (utf8Text P (decode value)) with
  | none => .error (.invalidCursor value)
  | some parsed =>
    match parsed.get? "createdAt", parsed.get? "id" with
    | some (.string createdAt), some (.string id) => .ok ⟨createdAt, id⟩
    | _, _ => .error (.invalidCursor value)

/-! ## What is written is read back -/

theorem utf8Text_utf8Bytes (P : CursorPlatform) (text : String) :
    utf8Text P (utf8Bytes text) = text := by
  have hvalid : String.fromUTF8? text.toUTF8 = some text := by
    unfold String.fromUTF8?
    exact dif_pos text.isValidUTF8
  unfold utf8Text utf8Bytes
  rw [Array.toArray_toList, hvalid, Option.getD_some]

theorem utf8Bytes_inj {s t : String} (h : utf8Bytes s = utf8Bytes t) : s = t :=
  String.toByteArray_inj.mp (ByteArray.ext (Array.toList_inj.mp h))

theorem decodeCursor_encodeCursor {P : CursorPlatform} {cursor : LedgerCursor}
    (hparse : P.jsonParse (stringify cursor.toJson) = some cursor.toJson) :
    decodeCursor P (encodeCursor cursor) = .ok cursor := by
  unfold decodeCursor encodeCursor
  rw [decode_encode, utf8Text_utf8Bytes, hparse]
  rfl

/-- A cursor is never the text that stands for none. -/
theorem encodeCursor_ne_empty (cursor : LedgerCursor) : encodeCursor cursor ≠ "" := by
  refine encode_ne_empty fun hnil => ?_
  have htext : stringify cursor.toJson = "" := utf8Bytes_inj (hnil.trans (by decide))
  have hchars : render cursor.toJson = [] := by
    rw [← String.toList_ofList (l := render cursor.toJson)]
    exact congrArg String.toList htext
  cases hchars

/-! ## `toISOString` -/

/-- Year, month and day of the given day since the epoch, in the Gregorian calendar.  Years are
counted from March on in eras of four hundred, so a leap day is the last of its year. -/
def civilDate (day : Nat) : Nat × Nat × Nat :=
  let era := (day + 719468) / 146097
  let dayOfEra := (day + 719468) % 146097
  let yearOfEra := (dayOfEra - dayOfEra / 1460 + dayOfEra / 36524 - dayOfEra / 146096) / 365
  let dayOfYear := dayOfEra - (365 * yearOfEra + yearOfEra / 4 - yearOfEra / 100)
  let monthFromMarch := (5 * dayOfYear + 2) / 153
  let month := if monthFromMarch < 10 then monthFromMarch + 3 else monthFromMarch - 9
  (400 * era + yearOfEra + (if month ≤ 2 then 1 else 0), month,
    dayOfYear - (153 * monthFromMarch + 2) / 5 + 1)

def padded (width n : Nat) : String :=
  let digits := Nat.repr n
  String.ofList (List.replicate (width - digits.length) '0') ++ digits

def toISOString (date : Date) : String :=
  let (year, month, day) := civilDate (date / 86400000)
  let time := date % 86400000
  (if year < 10000 then padded 4 year else "+" ++ padded 6 year) ++ "-" ++ padded 2 month ++ "-" ++
    padded 2 day ++ "T" ++ padded 2 (time / 3600000) ++ ":" ++ padded 2 (time / 60000 % 60) ++
      ":" ++ padded 2 (time / 1000 % 60) ++ "." ++ padded 3 (time % 1000) ++ "Z"

example : toISOString 1709210096007 = "2024-02-29T12:34:56.007Z" := by decide +kernel

end WageringProcessor.Pagination
