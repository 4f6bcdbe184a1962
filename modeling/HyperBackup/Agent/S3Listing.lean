import HyperBackup.Domain
import HyperBackup.Lib.Markup
import HyperBackup.Lib.TextFields

/-!
# The list of objects in a bucket

The answer of the store is read without a grammar: the texts between the tags of
`Contents` are taken one after the other, and each of them is searched for the tags of
its fields.  Every search begins behind what was found before, so the loop ends on any
text, and on a list of elements it finds the fields of each in its own element.

The parser of times is a parameter, and the clock is read for every object.
-/

namespace HyperBackup
namespace Agent
namespace S3

open Lib Lib.Markup

structure ObjectInfo where
  key : String
  size : Nat
  lastModified : DateTime
deriving DecidableEq

section Operations

/-- The text from one index to another.  There is none if an index is out of bounds. -/
def slice (text : List Char) (start stop : Nat) : Option (List Char) :=
  if start ≤ stop ∧ stop ≤ text.length then some ((text.drop start).take (stop - start))
  else none

/-- The text of the first element of the name, if there is one. -/
def extractXmlTag (xml tag : List Char) : Option (Option (List Char)) :=
  match find (openTag tag) xml with
  | none => some none
  | some i => do
      let start := i + (openTag tag).length
      let rest ← slice xml start xml.length
      match find (closeTag tag) rest with
      | none => some none
      | some e => (slice xml start (e + start)).map some

def extractContinuationToken (xml : List Char) : Option (Option String) :=
  (extractXmlTag xml "NextContinuationToken".toList).map fun token =>
    token.map String.ofList

variable (parseTime : List Char → Option DateTime)

def readObject (now : DateTime) (contents : List Char) : Option ObjectInfo := do
  let key ← extractXmlTag contents "Key".toList
  let size ← extractXmlTag contents "Size".toList
  let lastModified ← extractXmlTag contents "LastModified".toList
  return {
    key := String.ofList (key.getD [])
    size := (size.bind (TextFields.parseUnsigned (2 ^ 64))).getD 0
    lastModified := (lastModified.bind parseTime).getD now }

variable (now : Nat → DateTime) (xml : List Char)

/-- The loop from a position on.  There is no result if a slice is out of bounds or if
the loop goes on after the given number of rounds. -/
def parseFrom : (fuel pos : Nat) → List ObjectInfo → Option (List ObjectInfo)
  | 0, _, _ => none
  | fuel + 1, pos, objects => do
      let rest ← slice xml pos xml.length
      match find "<Contents>".toList rest with
      | none => some objects
      | some i =>
          let start := pos + i + "<Contents>".toList.length
          let tail ← slice xml start xml.length
          match find "</Contents>".toList tail with
          | none => some objects
          | some e =>
              let stop := start + e
              let contents ← slice xml start stop
              let object ← readObject parseTime (now objects.length) contents
              parseFrom fuel (stop + "</Contents>".toList.length) (objects ++ [object])

def parseS3ListXml : Option (List ObjectInfo) :=
  parseFrom parseTime now xml (xml.length + 1) 0 []

end Operations

section Reading

variable {parseTime : List Char → Option DateTime} {now : Nat → DateTime}
  {xml : List Char}

theorem slice_to_end {start : Nat} (h : start ≤ xml.length) :
    slice xml start xml.length = some (xml.drop start) := by
  rw [slice, if_pos ⟨h, Nat.le_refl _⟩, List.take_of_length_le (by simp)]

theorem slice_add {start n : Nat} (h : start + n ≤ xml.length) :
    slice xml start (start + n) = some ((xml.drop start).take n) := by
  rw [slice, if_pos ⟨Nat.le_add_right start n, h⟩, Nat.add_sub_cancel_left]

/-- The indices stay in the text, and what is between them is cut out. -/
theorem extractXmlTag_eq (xml tag : List Char) :
    extractXmlTag xml tag = some ((cut tag xml).map Prod.fst) := by
  unfold extractXmlTag cut
  cases hopen : find (openTag tag) xml with
  | none => rfl
  | some i =>
      have hle := add_length_le_of_find hopen
      simp only [slice_to_end hle, Option.bind_some]
      change (match find (closeTag tag) (xml.drop (i + (openTag tag).length)) with
        | none => _
        | some e => _) = _
      cases hclose : find (closeTag tag) (xml.drop (i + (openTag tag).length)) with
      | none => rfl
      | some e =>
          have hle' := add_length_le_of_find hclose
          rw [List.length_drop] at hle'
          have hstop : i + (openTag tag).length + e ≤ xml.length := by omega
          simp only [Nat.add_comm e, slice_add hstop]
          rfl

/-- What is read of the text of an object. -/
def objectOf (parseTime : List Char → Option DateTime) (now : DateTime)
    (contents : List Char) : ObjectInfo :=
  let field := fun name : String => (cut name.toList contents).map Prod.fst
  { key := String.ofList ((field "Key").getD [])
    size := ((field "Size").bind (TextFields.parseUnsigned (2 ^ 64))).getD 0
    lastModified := ((field "LastModified").bind parseTime).getD now }

theorem readObject_eq (now : DateTime) (contents : List Char) :
    readObject parseTime now contents = some (objectOf parseTime now contents) := by
  simp only [readObject, extractXmlTag_eq]
  rfl

/-- A round of the loop in which nothing is cut out is the last. -/
theorem parseFrom_of_cut_eq_none {fuel pos : Nat} {objects : List ObjectInfo}
    (hpos : pos ≤ xml.length) (h : cut "Contents".toList (xml.drop pos) = none) :
    parseFrom parseTime now xml (fuel + 1) pos objects = some objects := by
  have hopentag : "<Contents>".toList = openTag "Contents".toList := rfl
  have hclosetag : "</Contents>".toList = closeTag "Contents".toList := rfl
  rw [parseFrom, slice_to_end hpos, hopentag, hclosetag]
  simp only [Option.bind_eq_bind, Option.bind_some]
  cases hopen : find (openTag "Contents".toList) (xml.drop pos) with
  | none => rfl
  | some i =>
      have hle := add_length_le_of_find hopen
      rw [List.length_drop] at hle
      have hstart : pos + (i + (openTag "Contents".toList).length) ≤ xml.length := by
        omega
      rw [cut, hopen, Option.bind_some, Option.map_eq_none_iff, List.drop_drop] at h
      simp only [Nat.add_assoc, slice_to_end hstart, Option.bind_some, h]

/-- In any other round the object is read, and the loop goes on behind it. -/
theorem parseFrom_of_cut_eq_some {fuel pos : Nat} {objects : List ObjectInfo}
    {contents rest : List Char} (hpos : pos ≤ xml.length)
    (h : cut "Contents".toList (xml.drop pos) = some (contents, rest)) :
    ∃ next, pos < next ∧ next ≤ xml.length ∧ xml.drop next = rest ∧
      parseFrom parseTime now xml (fuel + 1) pos objects =
        parseFrom parseTime now xml fuel next
          (objects ++ [objectOf parseTime (now objects.length) contents]) := by
  have hopentag : "<Contents>".toList = openTag "Contents".toList := rfl
  have hclosetag : "</Contents>".toList = closeTag "Contents".toList := rfl
  obtain ⟨i, e, hopen, hclose, rfl, rfl⟩ := cut_eq_some_iff.mp h
  have hle := add_length_le_of_find hopen
  have hle' := add_length_le_of_find hclose
  simp only [List.length_drop] at hle hle'
  have hpositive : 0 < (openTag "Contents".toList).length := Nat.succ_pos _
  have hstart : pos + i + (openTag "Contents".toList).length ≤ xml.length := by
    omega
  have hstop : pos + i + (openTag "Contents".toList).length + e ≤ xml.length := by
    omega
  have hinner : (xml.drop pos).drop (i + (openTag "Contents".toList).length) =
      xml.drop (pos + i + (openTag "Contents".toList).length) := by
    rw [List.drop_drop, Nat.add_assoc]
  rw [hinner] at hclose ⊢
  refine ⟨pos + i + (openTag "Contents".toList).length + e +
    (closeTag "Contents".toList).length, by omega, by omega, ?_, ?_⟩
  · rw [List.drop_drop]
    simp only [Nat.add_assoc]
  · rw [parseFrom, slice_to_end hpos, hopentag, hclosetag]
    simp only [Option.bind_eq_bind, Option.bind_some, hopen, slice_to_end hstart, hclose,
      slice_add hstop, readObject_eq]

/-- The loop reads all texts between the tags, if it may go on for long enough. -/
theorem parseFrom_eq (fuel pos : Nat) (objects : List ObjectInfo)
    (hpos : pos ≤ xml.length) (hfuel : xml.length - pos < fuel) :
    parseFrom parseTime now xml fuel pos objects =
      some (objects ++ (texts "Contents".toList (xml.drop pos)).mapIdx fun i contents =>
        objectOf parseTime (now (objects.length + i)) contents) := by
  induction fuel generalizing pos objects with
  | zero =>
      omega
  | succ fuel ih =>
      cases hcut : cut "Contents".toList (xml.drop pos) with
      | none =>
          rw [parseFrom_of_cut_eq_none hpos hcut, texts_of_cut_eq_none hcut,
            List.mapIdx_nil, List.append_nil]
      | some parts =>
          obtain ⟨contents, rest⟩ := parts
          obtain ⟨next, hlt, hle, rfl, hround⟩ :=
            @parseFrom_of_cut_eq_some parseTime now xml fuel pos objects _ _ hpos hcut
          rw [hround, ih next _ hle (by omega), texts_of_cut_eq_some hcut,
            List.mapIdx_cons, List.append_assoc, List.singleton_append,
            List.length_append, List.length_singleton]
          simp only [Nat.add_right_comm objects.length 1, Nat.add_assoc, Nat.add_zero]

theorem parseS3ListXml_eq (xml : List Char) :
    parseS3ListXml parseTime now xml =
      some ((texts "Contents".toList xml).mapIdx fun i contents =>
        objectOf parseTime (now i) contents) := by
  rw [parseS3ListXml, parseFrom_eq _ _ _ (Nat.zero_le _) (by omega)]
  simp only [List.nil_append, List.drop_zero, List.length_nil, Nat.zero_add]

end Reading

section Statement

/-- The names whose tags are searched. -/
def readNames : List (List Char) :=
  ["Contents".toList, "Key".toList, "Size".toList, "LastModified".toList,
    "NextContinuationToken".toList]

/-- There is one element of the name, and its contents are this text. -/
def Field (name : String) (nodes : Nodes) (t : List Char) : Prop :=
  ∃ content, nodes.named name.toList = [content] ∧ content.render = t ∧
    '<' ∉ t ∧ '&' ∉ t

/-- The number that the digits stand for. -/
def decimal (digits : List Char) : Nat :=
  digits.foldl (fun n c => 10 * n + (c.toNat - '0'.toNat)) 0

/-- The contents of an element that stands for an object with the key and the size. -/
structure Describes (contents : Nodes) (key : String) (size : Nat) : Prop where
  hasKey : Field "Key" contents key.toList
  hasSize : ∃ digits, Field "Size" contents digits ∧ digits ≠ [] ∧
    (∀ c ∈ digits, c.isDigit = true) ∧ decimal digits = size
  bounded : size < 2 ^ 64
  hasTime : ∃ t, Field "LastModified" contents t
  alone : contents.named "Contents".toList = []

/-- The objects of the body, with their keys and sizes. -/
def Lists (body : Nodes) (objects : List (String × Nat)) : Prop :=
  List.Forall₂ (fun contents o => Describes contents o.1 o.2)
    (body.named "Contents".toList) objects

/-- The token of the body, if it has one. -/
def HasToken (body : Nodes) : Option String → Prop
  | none => body.named "NextContinuationToken".toList = []
  | some token => Field "NextContinuationToken" body token.toList

end Statement

section Exactness

variable {nodes : Nodes}

theorem isName_of_mem {name : List Char} (h : name ∈ readNames) : IsName name := by
  revert name
  decide +kernel

/-- The text of a field is cut out. -/
theorem cut_field {name : String} {t : List Char} (hname : name.toList ∈ readNames)
    (hnodes : nodes.WellFormed readNames) (h : Field name nodes t) :
    (cut name.toList nodes.render).map Prod.fst = some t := by
  obtain ⟨content, hnamed, rfl, hplain, -⟩ := h
  have hflat : ∀ c ∈ nodes.named name.toList, c.named name.toList = [] := by
    intro c hc
    rw [hnamed] at hc
    rw [List.mem_singleton.mp hc]
    exact Nodes.named_eq_nil_of_notMem hplain _
  rw [Nodes.cut_render (isName_of_mem hname) hname hnodes hflat, hnamed]
  rfl

/-- Digits are read as their number. -/
theorem parseUnsigned_digits {limit : Nat} {digits : List Char} (hne : digits ≠ [])
    (hdigits : ∀ c ∈ digits, c.isDigit = true) (hlt : decimal digits < limit) :
    TextFields.parseUnsigned limit digits = some (decimal digits) := by
  have hplus : TextFields.withoutPlus digits = digits := by
    unfold TextFields.withoutPlus
    split
    · exact absurd (hdigits '+' List.mem_cons_self) (by decide)
    · rfl
  unfold TextFields.parseUnsigned
  simp only [hplus]
  rw [if_pos ⟨hne, List.all_eq_true.mpr hdigits⟩]
  exact if_pos hlt

/-- An object is read as it is described. -/
theorem objectOf_render {parseTime : List Char → Option DateTime} (now : DateTime)
    {key : String} {size : Nat} (hnodes : nodes.WellFormed readNames)
    (h : Describes nodes key size) :
    ((objectOf parseTime now nodes.render).key,
      (objectOf parseTime now nodes.render).size) = (key, size) := by
  obtain ⟨digits, hfield, hne, hdigits, rfl⟩ := h.hasSize
  have hkey := cut_field (by decide) hnodes h.hasKey
  have hsize := cut_field (by decide) hnodes hfield
  simp only [objectOf, hkey, hsize, Option.getD_some, Option.bind_some,
    parseUnsigned_digits hne hdigits h.bounded, String.ofList_toList]

/-- Whatever the clock shows, every element is read as its object. -/
theorem map_objectOf_render {parseTime : List Char → Option DateTime}
    (now : Nat → DateTime) {contents : List Nodes} {objects : List (String × Nat)}
    (hwell : ∀ c ∈ contents, c.WellFormed readNames)
    (h : List.Forall₂ (fun c o => Describes c o.1 o.2) contents objects) :
    ((contents.map Nodes.render).mapIdx fun i c => objectOf parseTime (now i) c).map
      (fun info => (info.key, info.size)) = objects := by
  induction h generalizing now with
  | nil =>
      rfl
  | @cons c o contents objects hc _ ih =>
      obtain ⟨hfirst, hrest⟩ := List.forall_mem_cons.mp hwell
      rw [List.map_cons, List.mapIdx_cons, List.map_cons,
        ih (fun i => now (i + 1)) hrest]
      exact congrArg (· :: objects) (objectOf_render (now 0) hfirst hc)

/-- The objects of a body are read with their keys and sizes. -/
theorem parseS3ListXml_render (parseTime : List Char → Option DateTime)
    (now : Nat → DateTime) {body : Nodes} {objects : List (String × Nat)}
    (hbody : body.WellFormed readNames) (h : Lists body objects) :
    ∃ infos, parseS3ListXml parseTime now body.render = some infos ∧
      infos.map (fun info => (info.key, info.size)) = objects := by
  have hflat : ∀ c ∈ body.named "Contents".toList, c.named "Contents".toList = [] := by
    refine ((List.forall₂_and_left _ _).mp (h.imp fun c o hc => ⟨hc.alone, hc⟩)).1
  have htexts := Nodes.texts_render (isName_of_mem (by decide)) (by decide) hbody hflat []
  have hnil : texts "Contents".toList [] = [] :=
    texts_of_cut_eq_none (cut_of_passes (passes_nil _))
  rw [List.append_nil, hnil, List.append_nil] at htexts
  refine ⟨_, parseS3ListXml_eq _, ?_⟩
  rw [htexts]
  exact map_objectOf_render now (fun c hc => hbody.of_mem_named hc) h

theorem extractContinuationToken_render {body : Nodes} {token : Option String}
    (hbody : body.WellFormed readNames) (h : HasToken body token) :
    extractContinuationToken body.render = some token := by
  rw [extractContinuationToken, extractXmlTag_eq, Option.map_some]
  cases token with
  | none =>
      have hflat : ∀ c ∈ body.named "NextContinuationToken".toList,
          c.named "NextContinuationToken".toList = [] := by
        rw [h]
        exact fun c hc => absurd hc List.not_mem_nil
      rw [Nodes.cut_render (isName_of_mem (by decide)) (by decide) hbody hflat, h]
      rfl
  | some token =>
      rw [cut_field (by decide) hbody h, Option.map_some, String.ofList_toList]

/-- The parser ends on every text, and it reads the objects and the token of a body. -/
theorem parseS3ListXml_exact (parseTime : List Char → Option DateTime)
    (now : Nat → DateTime) :
    (∀ xml, ∃ infos, parseS3ListXml parseTime now xml = some infos) ∧
    (∀ body objects, body.WellFormed readNames → Lists body objects →
      ∃ infos, parseS3ListXml parseTime now body.render = some infos ∧
        infos.map (fun info => (info.key, info.size)) = objects) ∧
    (∀ body token, body.WellFormed readNames → HasToken body token →
      extractContinuationToken body.render = some token) :=
  ⟨fun xml => ⟨_, parseS3ListXml_eq xml⟩,
    fun _ _ hbody h => parseS3ListXml_render parseTime now hbody h,
    fun _ _ hbody h => extractContinuationToken_render hbody h⟩

/-- The element of an object, with its parts in the order of the service. -/
def contentsOf (key time size : String) : Nodes :=
  .element "Key".toList [] (.text key.toList .nil)
    (.element "LastModified".toList [] (.text time.toList .nil)
      (.element "ETag".toList [] (.text "x".toList .nil)
        (.element "Size".toList [] (.text size.toList .nil) .nil)))

/-- A page with a declaration, two objects and a token. -/
def examplePage : Nodes :=
  .note '?' "xml version=\"1.0\"?".toList
    (.element "ListBucketResult".toList " xmlns=\"urn:s3\"".toList
      (.element "Contents".toList []
        (contentsOf "a/b" "2025-01-01T00:00:00.000Z" "5")
        (.empty "Prefix".toList []
          (.element "Contents".toList []
            (contentsOf "c" "2025-01-02T00:00:00.000Z" "120")
            (.element "NextContinuationToken".toList []
              (.text "t".toList .nil) .nil))))
      .nil)

/-- The times of the two objects. -/
def pageTime (text : List Char) : Option DateTime :=
  if text = "2025-01-01T00:00:00.000Z".toList then some 1735689600000000000
  else if text = "2025-01-02T00:00:00.000Z".toList then some 1735776000000000000
  else none

theorem parseS3ListXml_exact_page :
    (∃ infos, parseS3ListXml pageTime (fun _ => 0) examplePage.render =
        some infos ∧
      infos.map (fun info => (info.key, info.size)) =
        [("a/b", 5), ("c", 120)]) ∧
    extractContinuationToken examplePage.render = some (some "t") := by
  have hpage : examplePage.WellFormed readNames := by
    decide +kernel
  obtain ⟨-, hlists, htoken⟩ := parseS3ListXml_exact pageTime fun _ => 0
  refine ⟨hlists examplePage _ hpage
    (List.Forall₂.cons ?_ (List.Forall₂.cons ?_ List.Forall₂.nil)),
    htoken examplePage _ hpage ?_⟩
  · exact {
      hasKey := ⟨.text "a/b".toList .nil, by decide +kernel⟩
      hasSize := ⟨"5".toList, ⟨.text "5".toList .nil, by decide +kernel⟩,
        by decide, List.all_eq_true.mp (by decide), by decide⟩
      bounded := by decide +kernel
      hasTime := ⟨"2025-01-01T00:00:00.000Z".toList,
        .text "2025-01-01T00:00:00.000Z".toList .nil, by decide +kernel⟩
      alone := by decide +kernel }
  · exact {
      hasKey := ⟨.text "c".toList .nil, by decide +kernel⟩
      hasSize := ⟨"120".toList, ⟨.text "120".toList .nil, by decide +kernel⟩,
        by decide, List.all_eq_true.mp (by decide), by decide⟩
      bounded := by decide +kernel
      hasTime := ⟨"2025-01-02T00:00:00.000Z".toList,
        .text "2025-01-02T00:00:00.000Z".toList .nil, by decide +kernel⟩
      alone := by decide +kernel }
  · exact ⟨.text "t".toList .nil, by decide +kernel⟩

end Exactness

end S3
end Agent
end HyperBackup
