import EchoJoyGateway.Lib.DigitText
import EchoJoyGateway.Lib.Json
import Mathlib.Data.List.Nodup
import Mathlib.Data.List.Perm.Subperm

/-!
# Signed content

The record of a signed block and its check, from `internal/requestredact/signature.go`.
The hash of a string is a parameter. A client that repeats a key can leave another string
out: the check counts the strings, and the repeated one counts twice.
-/

namespace EchoJoyGateway.RequestRedact

open Utf8 List

/-- A string of a document of valid UTF-8. -/
abbrev Utf8Text := {text : Text // validString text = true}

/-- What gjson reads of a value; numbers, booleans and null are not looked into. -/
inductive Node where
  | string (text : Utf8Text)
  | object (members : List (Utf8Text × Node))
  | array (items : List Node)
  | other

inductive PathElement where
  | key (name : Utf8Text)
  | index (position : Nat)
  deriving DecidableEq

abbrev Path := List PathElement

structure RestoreSpan where
  offset : Nat
  length : Nat
  original : Text

structure SignedString where
  path : Path
  value : Utf8Text
  spans : List RestoreSpan

structure SignatureString (Digest : Type) where
  path : Path
  hash : Digest
  spans : List RestoreSpan

structure SignatureRecord (Digest : Type) where
  version : Nat
  signature : Text
  strings : List (SignatureString Digest)

def protocolNames : List Text :=
  ["id", "type", "role", "name", "status", "model", "modelVersion", "object", "metadata",
    "signature", "thoughtSignature", "thought_signature", "encrypted_content", "data", "b64_json",
    "result", "url", "image_url", "audio_url", "file_url", "file_data", "fileData", "inline_data",
    "inlineData", "mime_type", "mimeType", "encrypted_index", "format"].map ascii

def protocolField (key : Text) : Bool :=
  protocolNames.contains key || (ascii "_id").isSuffixOf key || (ascii "Id").isSuffixOf key

def signedBusinessField (key : Text) : Bool :=
  (["args", "input", "response", "output", "arguments"].map ascii).contains key

mutual

/-- The strings to be checked, in the order of the document; the walk fails below depth 64. -/
def collectSignedContent (signature : Path) : Node → Path → Bool → Nat → Option (List SignedString)
  | .string text, path, _, depth =>
    if depth > 64 then none else if path = signature then some [] else some [⟨path, text, []⟩]
  | .object members, path, business, depth =>
    if depth > 64 then none else collectMembers signature members path business (depth + 1)
  | .array items, path, business, depth =>
    if depth > 64 then none else collectItems signature items path business (depth + 1) 0
  | .other, _, _, depth => if depth > 64 then none else some []

def collectMembers (signature : Path) :
    List (Utf8Text × Node) → Path → Bool → Nat → Option (List SignedString)
  | [], _, _, _ => some []
  | (key, child) :: rest, path, business, depth =>
    if !business && (protocolField key.1 || key.1 == ascii "cache_control") then
      collectMembers signature rest path business depth
    else do
      let here ← collectSignedContent signature child (path ++ [.key key])
        (business || signedBusinessField key.1) depth
      let later ← collectMembers signature rest path business depth
      pure (here ++ later)

def collectItems (signature : Path) :
    List Node → Path → Bool → Nat → Nat → Option (List SignedString)
  | [], _, _, _, _ => some []
  | child :: rest, path, business, depth, index => do
    let here ← collectSignedContent signature child (path ++ [.index index]) business depth
    let later ← collectItems signature rest path business depth (index + 1)
    pure (here ++ later)

end

def signedContent (block : Node) (signature : Path) : Option (List SignedString) :=
  collectSignedContent signature block [] false 0

def encodeElement : PathElement → Text
  | .key name => JSON.encodeString name.1
  | .index position => DigitText.numeral position

def encodeRest (path : Path) : Text :=
  path.flatMap (fun element => JSON.comma ++ encodeElement element) ++ ascii "]"

/-- `json.Marshal` of a path; the path of the block itself is a nil slice. -/
def encodePath : Path → Text
  | [] => ascii "null"
  | first :: rest => ascii "[" ++ encodeElement first ++ encodeRest rest

/-! ## The encoded path -/

theorem takeWhile_encodeRest (path : Path) :
    (encodeRest path).takeWhile DigitText.isDigit = [] := by
  cases path <;> rfl

theorem encodeElement_inj {a b : PathElement} {p q : Path}
    (h : encodeElement a ++ encodeRest p = encodeElement b ++ encodeRest q) :
    a = b ∧ encodeRest p = encodeRest q := by
  have hindex : ∀ n r, (DigitText.numeral n ++ encodeRest r).takeWhile DigitText.isDigit =
      DigitText.numeral n := by
    intro n r
    rw [takeWhile_append_of_pos (all_eq_true.mp (DigitText.allDigits_numeral n)),
      takeWhile_encodeRest, append_nil]
  have hkey : ∀ (name : Utf8Text) n r t,
      JSON.encodeString name.1 ++ t ≠ DigitText.numeral n ++ encodeRest r := by
    intro name n r t heq
    have hdigits := congrArg (List.takeWhile DigitText.isDigit) heq
    rw [hindex] at hdigits
    exact DigitText.numeral_ne_nil n hdigits.symm
  cases a with
  | key name =>
    cases b with
    | key other =>
      have hread := congrArg (fun text => JSON.unquote text.tail) h
      simp only [encodeElement, JSON.unquote_encodeString name.2,
        JSON.unquote_encodeString other.2, Prod.mk.injEq] at hread
      exact ⟨congrArg _ (Subtype.ext hread.1), hread.2⟩
    | index n => exact absurd h (hkey name n q _)
  | index n =>
    cases b with
    | key other => exact absurd h.symm (hkey other n p _)
    | index m =>
      have hnumeral := congrArg (List.takeWhile DigitText.isDigit) h
      simp only [encodeElement, hindex] at hnumeral
      have hvalue := congrArg DigitText.value hnumeral
      rw [DigitText.value_numeral, DigitText.value_numeral] at hvalue
      subst hvalue
      exact ⟨rfl, append_cancel_left h⟩

theorem encodeRest_injective : Function.Injective encodeRest := by
  intro p
  induction p with
  | nil =>
    rintro (_ | ⟨b, q⟩) h
    · rfl
    · cases congrArg List.head? h
  | cons a p ih =>
    rintro (_ | ⟨b, q⟩) h
    · cases congrArg List.head? h
    · simp only [encodeRest, flatMap_cons, append_assoc] at h
      obtain ⟨rfl, hrest⟩ := encodeElement_inj (append_cancel_left h)
      rw [ih hrest]

theorem encodePath_injective : Function.Injective encodePath := by
  rintro (_ | ⟨a, p⟩) (_ | ⟨b, q⟩) h
  · rfl
  · cases congrArg List.head? h
  · cases congrArg List.head? h
  · simp only [encodePath, append_assoc] at h
    obtain ⟨rfl, hrest⟩ := encodeElement_inj (append_cancel_left h)
    rw [encodeRest_injective hrest]

/-! ## Objects without duplicate keys -/

mutual

def distinctKeys : Node → Bool
  | .object members => decide (members.map Prod.fst).Nodup && distinctMembers members
  | .array items => distinctItems items
  | _ => true

def distinctMembers : List (Utf8Text × Node) → Bool
  | [] => true
  | (_, child) :: rest => distinctKeys child && distinctMembers rest

def distinctItems : List Node → Bool
  | [] => true
  | child :: rest => distinctKeys child && distinctItems rest

end

/-- Strings at distinct paths, each of which goes on with one of the given elements. -/
structure Branches (path : Path) (among : PathElement → Prop) (values : List SignedString) :
    Prop where
  distinct : (values.map (·.path)).Nodup
  below : ∀ value ∈ values, ∃ element, among element ∧ path ++ [element] <+: value.path

theorem Branches.nil (path : Path) (among : PathElement → Prop) : Branches path among [] :=
  ⟨nodup_nil, nofun⟩

theorem Branches.weaken {path : Path} {among among' : PathElement → Prop}
    {values : List SignedString} (h : Branches path among values)
    (hsub : ∀ element, among element → among' element) : Branches path among' values :=
  ⟨h.distinct, fun value hvalue => (h.below value hvalue).imp fun _ => .imp (hsub _) id⟩

theorem Branches.append {path : Path} {element : PathElement} {among : PathElement → Prop}
    {here later : List SignedString} (hdistinct : (here.map (·.path)).Nodup)
    (hbelow : ∀ value ∈ here, path ++ [element] <+: value.path) (hlater : Branches path among later)
    (hnew : ¬ among element) :
    Branches path (fun other => other = element ∨ among other) (here ++ later) where
  distinct := by
    rw [map_append, nodup_append']
    refine ⟨hdistinct, hlater.distinct, fun p hp hp' => ?_⟩
    obtain ⟨value, hvalue, rfl⟩ := mem_map.mp hp
    obtain ⟨value', hvalue', hsame⟩ := mem_map.mp hp'
    obtain ⟨other, hother, hprefix⟩ := hlater.below value' hvalue'
    rw [hsame] at hprefix
    have heq := (prefix_of_prefix_length_le (hbelow value hvalue) hprefix (by simp)).eq_of_length
      (by simp)
    obtain rfl := singleton_inj.mp (append_cancel_left heq)
    exact hnew hother
  below value hvalue := by
    rcases mem_append.mp hvalue with hhere | hvalue
    · exact ⟨element, .inl rfl, hbelow value hhere⟩
    · obtain ⟨other, hother, hprefix⟩ := hlater.below value hvalue
      exact ⟨other, .inr hother, hprefix⟩

theorem Branches.paths {path : Path} {among : PathElement → Prop} {values : List SignedString}
    (h : Branches path among values) :
    (values.map (·.path)).Nodup ∧ ∀ value ∈ values, path <+: value.path :=
  ⟨h.distinct, fun value hvalue =>
    have ⟨_, _, hprefix⟩ := h.below value hvalue
    (prefix_append _ _).trans hprefix⟩

mutual

theorem collectSignedContent_paths {signature : Path} (node : Node)
    (hkeys : distinctKeys node = true)
    {path : Path} {business : Bool} {depth : Nat} {values : List SignedString}
    (h : collectSignedContent signature node path business depth = some values) :
    (values.map (·.path)).Nodup ∧ ∀ value ∈ values, path <+: value.path := by
  cases node with
  | string text =>
    simp only [collectSignedContent] at h
    split_ifs at h <;> cases h
    · exact ⟨nodup_nil, nofun⟩
    · simp
  | object members =>
    simp only [collectSignedContent, Option.ite_none_left_eq_some] at h
    simp only [distinctKeys, Bool.and_eq_true, decide_eq_true_eq] at hkeys
    exact (collectMembers_paths members hkeys.1 hkeys.2 h.2).paths
  | array items =>
    simp only [collectSignedContent, Option.ite_none_left_eq_some] at h
    exact (collectItems_paths items hkeys h.2).paths
  | other =>
    simp only [collectSignedContent] at h
    split_ifs at h
    cases h
    exact ⟨nodup_nil, nofun⟩

theorem collectMembers_paths {signature : Path} (members : List (Utf8Text × Node))
    (hnodup : (members.map Prod.fst).Nodup) (hkeys : distinctMembers members = true) {path : Path}
    {business : Bool} {depth : Nat} {values : List SignedString}
    (h : collectMembers signature members path business depth = some values) :
    Branches path (fun element => ∃ key ∈ members.map Prod.fst, element = .key key) values := by
  cases members with
  | nil =>
    cases h
    exact .nil _ _
  | cons member rest =>
    obtain ⟨key, child⟩ := member
    rw [map_cons, nodup_cons] at hnodup
    simp only [distinctMembers, Bool.and_eq_true] at hkeys
    simp only [collectMembers] at h
    split_ifs at h
    · refine (collectMembers_paths rest hnodup.2 hkeys.2 h).weaken ?_
      rintro _ ⟨other, hother, rfl⟩
      exact ⟨other, .tail _ hother, rfl⟩
    · simp only [Option.bind_eq_bind, Option.bind_eq_some_iff] at h
      obtain ⟨here, hhere, later, hlater, hvalues⟩ := h
      cases hvalues
      obtain ⟨hdistinct, hbelow⟩ := collectSignedContent_paths child hkeys.1 hhere
      refine (Branches.append hdistinct hbelow (collectMembers_paths rest hnodup.2 hkeys.2 hlater)
        ?_).weaken ?_
      · rintro ⟨other, hother, heq⟩
        cases heq
        exact hnodup.1 hother
      · rintro _ (rfl | ⟨other, hother, rfl⟩)
        · exact ⟨key, .head _, rfl⟩
        · exact ⟨other, .tail _ hother, rfl⟩

theorem collectItems_paths {signature : Path} (items : List Node)
    (hkeys : distinctItems items = true) {path : Path} {business : Bool} {depth index : Nat}
    {values : List SignedString}
    (h : collectItems signature items path business depth index = some values) :
    Branches path (fun element => ∃ position ≥ index, element = .index position) values := by
  cases items with
  | nil =>
    cases h
    exact .nil _ _
  | cons child rest =>
    simp only [distinctItems, Bool.and_eq_true] at hkeys
    simp only [collectItems, Option.bind_eq_bind, Option.bind_eq_some_iff] at h
    obtain ⟨here, hhere, later, hlater, hvalues⟩ := h
    cases hvalues
    obtain ⟨hdistinct, hbelow⟩ := collectSignedContent_paths child hkeys.1 hhere
    refine (Branches.append hdistinct hbelow (collectItems_paths rest hkeys.2 hlater) ?_).weaken ?_
    · rintro ⟨position, hle, heq⟩
      cases heq
      omega
    · rintro _ (rfl | ⟨position, hle, rfl⟩)
      · exact ⟨index, Nat.le_refl index, rfl⟩
      · exact ⟨position, Nat.le_of_succ_le hle, rfl⟩

end

section Check

variable {Digest : Type} [DecidableEq Digest] (hash : Utf8Text → Digest)

def signatureRecordVersion : Nat := 2

/-- The record that `WrapSignature` encodes. -/
def wrappedRecord (signature : Text) (values : List SignedString) : SignatureRecord Digest :=
  ⟨signatureRecordVersion, signature,
    values.map fun value => ⟨value.path, hash value.value, value.spans⟩⟩

/-- The text with its spans replaced, from a position on. -/
def applySpans (value : Text) : Nat → List RestoreSpan → Option Text
  | position, [] => some (value.drop position)
  | position, span :: rest =>
    if span.offset < position ∨ span.offset + span.length > value.length then none
    else
      (applySpans value (span.offset + span.length) rest).map fun restored =>
        (value.take span.offset).drop position ++ span.original ++ restored

def spansRestore (value : Text) (spans : List RestoreSpan) : Option Text :=
  (applySpans value 0 spans).filter validString

def restoreSignedString (value : Utf8Text) (entry : SignatureString Digest) : Option Text :=
  if hash value ≠ entry.hash then none else spansRestore value.1 entry.spans

/-- The entries of a record by their marshalled paths; a path that occurs twice fails. -/
def indexStrings (entries : Text → Option (SignatureString Digest)) :
    List (SignatureString Digest) → Option (Text → Option (SignatureString Digest))
  | [] => some entries
  | entry :: rest =>
    if (entries (encodePath entry.path)).isSome then none
    else indexStrings (Function.update entries (encodePath entry.path) (some entry)) rest

def restoreValue (entries : Text → Option (SignatureString Digest)) (value : SignedString) :
    Option (SignedString × Text) :=
  (entries (encodePath value.path)).bind fun entry =>
    (restoreSignedString hash value.value entry).map fun text => (value, text)

/-- The strings to be put back; `none` where the source returns `false`. -/
def restoreSignedBlock (block : Node) (signature : Path) (record : SignatureRecord Digest) :
    Option (List (SignedString × Text)) := do
  let values ← signedContent block signature
  if values.length ≠ record.strings.length then none
  else do
    let entries ← indexStrings (fun _ => none) record.strings
    let restored ← values.mapM (restoreValue hash entries)
    pure (restored.filter fun item => item.2 ≠ item.1.value.1)

variable {hash}

omit [DecidableEq Digest] in
theorem indexStrings_eq (entries : Text → Option (SignatureString Digest))
    (strings : List (SignatureString Digest)) :
    indexStrings entries strings =
      if (strings.map fun entry => encodePath entry.path).Nodup ∧
          ∀ entry ∈ strings, entries (encodePath entry.path) = none then
        some fun key => (strings.find? fun entry => encodePath entry.path = key).or (entries key)
      else none := by
  induction strings generalizing entries with
  | nil => simp [indexStrings]
  | cons entry rest ih =>
    have hfresh : ∀ other : SignatureString Digest,
        Function.update entries (encodePath entry.path) (some entry)
          (encodePath other.path) = none ↔
          encodePath other.path ≠ encodePath entry.path ∧
            entries (encodePath other.path) = none := by
      intro other
      by_cases heq : encodePath other.path = encodePath entry.path
      · simp [heq]
      · simp [heq]
    rw [indexStrings]
    cases hentry : entries (encodePath entry.path) with
    | some found => simp [hentry]
    | none =>
      rw [if_neg (by simp), ih]
      simp only [hfresh, map_cons, nodup_cons, mem_map, forall_mem_cons, hentry, true_and]
      by_cases hnew : ∃ other ∈ rest, encodePath other.path = encodePath entry.path
      · obtain ⟨other, hmem, heq⟩ := hnew
        rw [if_neg (fun h => (h.2 other hmem).1 heq), if_neg (fun h => h.1.1 ⟨other, hmem, heq⟩)]
      · have hne : ∀ other ∈ rest, encodePath other.path ≠ encodePath entry.path :=
          fun other hmem heq => hnew ⟨other, hmem, heq⟩
        refine if_congr ?_ (congrArg some (funext fun key => ?_)) rfl
        · exact ⟨fun h => ⟨⟨hnew, h.1⟩, fun other hmem => (h.2 other hmem).2⟩,
            fun h => ⟨h.1.2, fun other hmem => ⟨hne other hmem, h.2 other hmem⟩⟩⟩
        · by_cases hkey : encodePath entry.path = key
          · subst hkey
            have hfind :
                (rest.find? fun other => encodePath other.path = encodePath entry.path) = none :=
              find?_eq_none.mpr fun other hmem => by simpa using hne other hmem
            simp [hfind]
          · simp [hkey, Function.update_of_ne (Ne.symm hkey)]

theorem mapM_isSome {α β : Type} (f : α → Option β) (items : List α) :
    (items.mapM f).isSome ↔ ∀ item ∈ items, (f item).isSome := by
  induction items with
  | nil => simp
  | cons item rest ih =>
    rw [mapM_cons, forall_mem_cons, ← ih]
    cases f item <;> cases rest.mapM f <;> simp

theorem restoreValue_isSome {strings : List (SignatureString Digest)}
    (hnodup : (strings.map (·.path)).Nodup) (value : SignedString) :
    (restoreValue hash
        (fun key => (strings.find? fun entry => encodePath entry.path = key).or none)
        value).isSome ↔
      ∃ entry ∈ strings, entry.path = value.path ∧
        (restoreSignedString hash value.value entry).isSome := by
  rw [restoreValue, Option.or_none]
  cases hfind : strings.find? fun entry => encodePath entry.path = encodePath value.path with
  | none =>
    have hnone : ∀ entry ∈ strings, entry.path ≠ value.path := by
      intro entry hmem heq
      exact find?_eq_none.mp hfind entry hmem (by simp [heq])
    simp only [Option.bind_none, Option.isSome_none, Bool.false_eq_true, false_iff]
    rintro ⟨entry, hmem, heq, -⟩
    exact hnone entry hmem heq
  | some found =>
    have hmem := mem_of_find?_eq_some hfind
    have hpath : found.path = value.path := encodePath_injective (by simpa using find?_some hfind)
    simp only [Option.bind_some, Option.isSome_map]
    constructor
    · intro h
      exact ⟨found, hmem, hpath, h⟩
    · rintro ⟨entry, hentry, heq, h⟩
      rwa [inj_on_of_nodup_map hnodup hmem hentry (hpath.trans heq.symm)]

theorem restoreSignedBlock_isSome (block : Node)
    (signature : Path) (record : SignatureRecord Digest) :
    (restoreSignedBlock hash block signature record).isSome ↔
      ∃ values, signedContent block signature = some values ∧
        values.length = record.strings.length ∧ (record.strings.map (·.path)).Nodup ∧
        ∀ value ∈ values, ∃ entry ∈ record.strings, entry.path = value.path ∧
          (restoreSignedString hash value.value entry).isSome := by
  have hkeys : (record.strings.map fun entry => encodePath entry.path).Nodup ↔
      (record.strings.map (·.path)).Nodup := by
    rw [← nodup_map_iff encodePath_injective, map_map]
    rfl
  unfold restoreSignedBlock
  cases hvalues : signedContent block signature with
  | none => simp
  | some values =>
    simp only [Option.bind_eq_bind, Option.bind_some, Option.some.injEq, exists_eq_left']
    by_cases hlength : values.length = record.strings.length
    · rw [if_neg (not_not.mpr hlength), indexStrings_eq]
      by_cases hnodup : (record.strings.map (·.path)).Nodup
      · rw [if_pos ⟨hkeys.mpr hnodup, fun _ _ => rfl⟩]
        simp only [Option.bind_some, ← restoreValue_isSome hnodup, ← mapM_isSome, hlength, hnodup]
        cases values.mapM (restoreValue hash fun key =>
          (record.strings.find? fun entry => encodePath entry.path = key).or none) <;> simp
      · rw [if_neg (fun h => hnodup (hkeys.mp h.1))]
        simp [hnodup]
    · simp [hlength]

theorem restoreSignedString_isSome (hhash : Function.Injective hash) {value signed : Utf8Text}
    {path : Path} {spans : List RestoreSpan} :
    (restoreSignedString hash value ⟨path, hash signed, spans⟩).isSome ↔
      value = signed ∧ (spansRestore value.1 spans).isSome := by
  rw [restoreSignedString]
  by_cases heq : value = signed
  · simp [heq]
  · simp [hhash.ne heq, heq]

def SignedString.pair (value : SignedString) : Path × Utf8Text := (value.path, value.value)

def signedPairs (block : Node) (signature : Path) : List (Path × Utf8Text) :=
  ((signedContent block signature).getD []).map SignedString.pair

/-- As many strings as were recorded, at distinct paths, each of them one of the recorded ones
with spans that apply. -/
structure Accepts (signed values : List SignedString) : Prop where
  length : values.length = signed.length
  distinct : (signed.map (·.path)).Nodup
  recorded : ∀ value ∈ values, ∃ string ∈ signed, string.pair = value.pair ∧
    (spansRestore value.value.1 string.spans).isSome

theorem restores_iff (hhash : Function.Injective hash)
    (signed : List SignedString) (client : Node) (signature : Path) (text : Text) :
    (restoreSignedBlock hash client signature (wrappedRecord hash text signed)).isSome ↔
      ∃ values, signedContent client signature = some values ∧ Accepts signed values := by
  rw [restoreSignedBlock_isSome]
  refine exists_congr fun values => and_congr_right fun _ => ?_
  simp only [wrappedRecord, length_map, map_map, mem_map,
    exists_exists_and_eq_and, restoreSignedString_isSome hhash]
  constructor
  · rintro ⟨hlength, hdistinct, hall⟩
    refine ⟨hlength, hdistinct, fun value hmem => ?_⟩
    obtain ⟨string, hstring, hpath, hvalue, hspans⟩ := hall value hmem
    exact ⟨string, hstring, Prod.ext hpath hvalue.symm, hspans⟩
  · rintro ⟨hlength, hdistinct, hall⟩
    refine ⟨hlength, hdistinct, fun value hmem => ?_⟩
    obtain ⟨string, hstring, hpair, hspans⟩ := hall value hmem
    exact ⟨string, hstring, congrArg Prod.fst hpair, (congrArg Prod.snd hpair).symm, hspans⟩

theorem Accepts.subset {signed values : List SignedString} (h : Accepts signed values) :
    values.map SignedString.pair ⊆ signed.map SignedString.pair := by
  intro pair hmem
  obtain ⟨value, hvalue, rfl⟩ := mem_map.mp hmem
  obtain ⟨string, hstring, heq, -⟩ := h.recorded value hvalue
  exact mem_map.mpr ⟨string, hstring, heq⟩

theorem Accepts.same_pairs_iff {signed values : List SignedString} (h : Accepts signed values) :
    (∀ pair, pair ∈ values.map SignedString.pair ↔ pair ∈ signed.map SignedString.pair) ↔
      ((values.map SignedString.pair).map Prod.fst).Nodup := by
  have hnodup : ((signed.map SignedString.pair).map Prod.fst).Nodup := by
    rw [map_map]
    exact h.distinct
  constructor
  · intro hsame
    have hback := subperm_of_subset hnodup.of_map fun pair hmem => (hsame pair).mpr hmem
    have hperm := hback.perm_of_length_le (by simp [h.length])
    exact (hperm.map Prod.fst).nodup_iff.mp hnodup
  · intro hvalues pair
    have hperm := (subperm_of_subset hvalues.of_map h.subset).perm_of_length_le (by simp [h.length])
    exact hperm.mem_iff

/-- A block that passes the check has the recorded paths and strings exactly when no two of its
strings share a path, as in every block without duplicate keys. -/
theorem changed_signed_content_detected_iff (hhash : Function.Injective hash) {block : Node}
    {signature : Path} {content : List SignedString}
    (hcontent : signedContent block signature = some content)
    (spans : SignedString → List RestoreSpan) (text : Text) (client : Node) :
    let signed := content.map fun string => { string with spans := spans string }
    ((restoreSignedBlock hash client signature (wrappedRecord hash text signed)).isSome →
      ((∀ pair, pair ∈ signedPairs client signature ↔ pair ∈ signedPairs block signature) ↔
        ((signedPairs client signature).map Prod.fst).Nodup)) ∧
    (distinctKeys client = true → ((signedPairs client signature).map Prod.fst).Nodup) := by
  intro signed
  have hblock : signedPairs block signature = signed.map SignedString.pair := by
    simp [signedPairs, hcontent, signed, SignedString.pair]
  constructor
  · intro haccepted
    obtain ⟨values, hvalues, haccepts⟩ := (restores_iff hhash _ _ _ _).mp haccepted
    rw [hblock, signedPairs, hvalues]
    exact haccepts.same_pairs_iff
  · intro hkeys
    unfold signedPairs
    cases hvalues : signedContent client signature with
    | none => exact nodup_nil
    | some values =>
      rw [map_map]
      exact (collectSignedContent_paths client hkeys hvalues).1

def sampleText (text : String) (h : validString (ascii text) = true := by decide) : Utf8Text :=
  ⟨ascii text, h⟩

def sampleSigned : Node :=
  .object [(sampleText "thinking", .string (sampleText "b")),
    (sampleText "parts", .array [.string (sampleText "a")])]

def sampleContent : List SignedString :=
  [⟨[.key (sampleText "thinking")], sampleText "b", []⟩,
    ⟨[.key (sampleText "parts"), .index 0], sampleText "a", []⟩]

def sampleSignature : Path := [.key (sampleText "signature")]

/-- The same strings in another order, with a signature of their own. -/
def sampleReordered : Node :=
  .object [(sampleText "parts", .array [.string (sampleText "a")]),
    (sampleText "signature", .string (sampleText "s")),
    (sampleText "thinking", .string (sampleText "b"))]

/-- A client's block that says one of the signed strings twice and leaves the other out. -/
def sampleRepeated : Node :=
  .object [(sampleText "thinking", .string (sampleText "b")),
    (sampleText "thinking", .string (sampleText "b"))]

theorem changed_signed_content_detected_sample :
    signedContent sampleSigned sampleSignature = some sampleContent ∧
    (restoreSignedBlock id sampleReordered sampleSignature
      (wrappedRecord id (ascii "s") sampleContent)).isSome = true ∧
    ∀ pair, pair ∈ signedPairs sampleReordered sampleSignature ↔
      pair ∈ signedPairs sampleSigned sampleSignature := by
  have hcontent : signedContent sampleSigned sampleSignature = some sampleContent := by rfl
  have haccepted : (restoreSignedBlock id sampleReordered sampleSignature
      (wrappedRecord id (ascii "s") sampleContent)).isSome = true := by decide
  obtain ⟨hiff, hkeys⟩ := changed_signed_content_detected_iff Function.injective_id hcontent
    (fun _ => []) (ascii "s") sampleReordered
  exact ⟨hcontent, haccepted, (hiff haccepted).mpr (hkeys (by decide))⟩

/-- The record of `{"thinking":"b","parts":["a"]}` accepts `{"thinking":"b","thinking":"b"}`. -/
theorem repeated_key_accepted :
    signedContent sampleSigned sampleSignature = some sampleContent ∧
    (restoreSignedBlock id sampleRepeated sampleSignature
      (wrappedRecord id (ascii "s") sampleContent)).isSome = true ∧
    ([.key (sampleText "parts"), .index 0], sampleText "a") ∈
      signedPairs sampleSigned sampleSignature ∧
    ([.key (sampleText "parts"), .index 0], sampleText "a") ∉
      signedPairs sampleRepeated sampleSignature := by
  refine ⟨rfl, ?_, ?_, ?_⟩
  · decide
  · decide
  · decide

end Check

end EchoJoyGateway.RequestRedact
