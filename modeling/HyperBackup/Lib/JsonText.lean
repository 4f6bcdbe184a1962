import HyperBackup.Lib.Hex

/-!
# JSON text

The compact text of JSON values as a serialiser writes it, built from the
texts of their parts, and times in the extended ISO 8601 form.
-/

namespace Lib
namespace JsonText

/-- The digits of a number, filled up with zeros. -/
def padded (width n : Nat) : String :=
  let digits := Nat.toDigits 10 n
  String.ofList (List.replicate (width - digits.length) '0' ++ digits)

def escape (c : Char) : String :=
  let n := c.toNat
  if c = '"' then "\\\""
  else if c = '\\' then "\\\\"
  else if n = 8 then "\\b"
  else if n = 9 then "\\t"
  else if n = 10 then "\\n"
  else if n = 12 then "\\f"
  else if n = 13 then "\\r"
  else if n < 32 then "\\u00" ++ String.ofList (Hex.digits (UInt8.ofNat n))
  else String.ofList [c]

def quote (s : String) : String :=
  "\"" ++ String.join (s.toList.map escape) ++ "\""

/-- A text in which nothing is escaped is put between quotes. -/
theorem quote_of_plain {s : String}
    (h : ∀ c ∈ s.toList, escape c = String.ofList [c]) :
    quote s = "\"" ++ s ++ "\"" := by
  have hjoin : ∀ cs : List Char, (∀ c ∈ cs, escape c = String.ofList [c]) →
      String.join (cs.map escape) = String.ofList cs := by
    intro cs
    induction cs with
    | nil =>
        intro _
        rfl
    | cons c cs ih =>
        intro hcs
        rw [List.map_cons, String.join_cons, hcs c List.mem_cons_self,
          ih fun c' hc' => hcs c' (List.mem_cons_of_mem _ hc'),
          ← String.ofList_append]
        rfl
  rw [quote, hjoin _ h, String.ofList_toList]

def array (items : List String) : String :=
  "[" ++ String.intercalate "," items ++ "]"

def object (fields : List (String × String)) : String :=
  let members := fields.map fun field => quote field.1 ++ ":" ++ field.2
  "\x7b" ++ String.intercalate "," members ++ "\x7d"

/-- The text of the first field stands right behind its name. -/
theorem exists_object_head_eq (name : String)
    (fields : List (String × String)) :
    ∃ rest, ∀ text, object ((name, text) :: fields) =
      "\x7b" ++ quote name ++ ":" ++ text ++ rest := by
  cases fields with
  | nil =>
      refine ⟨"\x7d", fun text => ?_⟩
      simp [object, String.append_assoc]
  | cons field fields =>
      refine ⟨"," ++ String.intercalate "," ((field :: fields).map fun field =>
        quote field.1 ++ ":" ++ field.2) ++ "\x7d", fun text => ?_⟩
      simp only [object, List.map_cons, String.intercalate_cons_cons,
        String.append_assoc]

/-- Objects with the same text and first fields of the same length have the same first field. -/
theorem object_head_eq {name text text' : String}
    {fields fields' : List (String × String)}
    (hlength : text.toList.length = text'.toList.length)
    (h : object ((name, text) :: fields) = object ((name, text') :: fields')) :
    text = text' := by
  obtain ⟨rest, hrest⟩ := exists_object_head_eq name fields
  obtain ⟨rest', hrest'⟩ := exists_object_head_eq name fields'
  have hlist := congrArg String.toList h
  simp only [hrest, hrest', String.toList_append, List.append_assoc,
    List.append_cancel_left_eq] at hlist
  exact String.toList_injective (List.append_inj hlist hlength).1

/-- A part of a joined list stands in the joined text. -/
theorem exists_intercalate_eq (sep lead : String) (xs ys : List String) :
    ∃ front back, ∀ text, String.intercalate sep (xs ++ (lead ++ text) :: ys) =
      front ++ text ++ back := by
  induction xs with
  | nil =>
      cases ys with
      | nil =>
          refine ⟨lead, "", ?_⟩
          intro text
          simp
      | cons y ys =>
          refine ⟨lead, sep ++ String.intercalate sep (y :: ys), ?_⟩
          intro text
          simp [String.append_assoc]
  | cons x xs ih =>
      obtain ⟨front, back, h⟩ := ih
      refine ⟨x ++ sep ++ front, back, ?_⟩
      intro text
      rw [List.cons_append, String.intercalate_cons_of_ne_nil (by simp), h]
      simp [String.append_assoc]

/-- The text of one field stands in the text of an object. -/
theorem exists_object_eq (name : String)
    (fields fields' : List (String × String)) :
    ∃ front back, ∀ text, object (fields ++ (name, text) :: fields') =
      front ++ text ++ back := by
  obtain ⟨front, back, h⟩ := exists_intercalate_eq "," (quote name ++ ":")
    (fields.map fun field => quote field.1 ++ ":" ++ field.2)
    (fields'.map fun field => quote field.1 ++ ":" ++ field.2)
  refine ⟨"\x7b" ++ front, back ++ "\x7d", ?_⟩
  intro text
  simp only [object, List.map_append, List.map_cons, h]
  simp only [String.append_assoc]

def bool : Bool → String
  | true => "true"
  | false => "false"

def null : String :=
  "null"

/-- An optional value. -/
def option {α : Type} (text : α → String) : Option α → String
  | none => null
  | some a => text a

def bytes (data : List UInt8) : String :=
  array (data.map fun b => toString b.toNat)

/-- Year, month and day of a number of days since 1970. -/
def civil (days : Int) : Int × Nat × Nat :=
  let z := days + 719468
  let era := z / 146097
  let doe := (z - era * 146097).toNat
  let yoe := (doe - doe / 1460 + doe / 36524 - doe / 146096) / 365
  let doy := doe - (365 * yoe + yoe / 4 - yoe / 100)
  let mp := (5 * doy + 2) / 153
  let day := doy - (153 * mp + 2) / 5 + 1
  let month := if mp < 10 then mp + 3 else mp - 9
  let year := yoe + era * 400 + (if month ≤ 2 then 1 else 0)
  (year, month, day)

/-- The fraction of a second in three, six or nine digits. -/
def fraction (nanos : Nat) : String :=
  if nanos = 0 then ""
  else if nanos % 1000000 = 0 then "." ++ padded 3 (nanos / 1000000)
  else if nanos % 1000 = 0 then "." ++ padded 6 (nanos / 1000)
  else "." ++ padded 9 nanos

/-- A time of the years 0 to 9999, in nanoseconds since 1970. -/
def time (t : Int) : String :=
  let seconds := t / 1000000000
  let nanos := (t - seconds * 1000000000).toNat
  let days := seconds / 86400
  let second := (seconds - days * 86400).toNat
  let (year, month, day) := civil days
  quote (padded 4 year.toNat ++ "-" ++ padded 2 month ++ "-" ++ padded 2 day ++
    "T" ++ padded 2 (second / 3600) ++ ":" ++ padded 2 (second / 60 % 60) ++
    ":" ++ padded 2 (second % 60) ++ fraction nanos ++ "Z")

end JsonText
end Lib
