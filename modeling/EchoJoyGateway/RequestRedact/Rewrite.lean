import EchoJoyGateway.Lib.BinarySearch
import EchoJoyGateway.Lib.Decimal
import EchoJoyGateway.Lib.IntervalRuns
import EchoJoyGateway.Lib.Traverse
import EchoJoyGateway.Lib.Utf8
import EchoJoyGateway.Redaction.Cipher
import Mathlib.Data.List.FinRange
import Mathlib.Data.List.Pairwise
import Mathlib.Data.List.Sort
import Mathlib.Data.Prod.Lex

/-!
# Redacting a text

`protectedMatch` and `rewriteText` of `internal/requestredact/redact.go` for a text that is
no JSON. The regular expressions are given by the matches they find, and the cipher by its
tokens. A match is an interval of the text labelled with its rule.
-/

namespace EchoJoyGateway.RequestRedact

open Utf8 IntervalRuns List

inductive Mode where
  | replace
  | encrypt
  deriving DecidableEq

structure Rule where
  replacement : Text
  mode : Mode

/-- A regular expression by the starts and the ends of its matches in each text. -/
structure Pattern where
  findAllStringIndex : Text → List (Nat × Nat)
  ordered : ∀ value, ∀ span ∈ findAllStringIndex value, span.1 ≤ span.2

structure Compiled where
  rules : List (Rule × Pattern)

/-- `EncryptToken` of a cipher, none where it fails. -/
abbrev TokenCipher := Text → Option Text

inductive ErrContent where
  | errContent
  deriving DecidableEq

structure TokenSpan where
  start : Nat
  stop : Nat
  ordered : start ≤ stop

def maxTextBytes : Nat := 128 * 2 ^ 20

def maxMatches : Nat := 65536

/-- Whether the text between the two positions lies inside a span, and whether it crosses
the border of one. -/
def protectedMatch (spans : List TokenSpan) (start stop : Nat) : Bool × Bool :=
  match spans[BinarySearch.lowerBound (spans.map TokenSpan.stop) (start + 1) 0 spans.length]? with
  | none => (false, false)
  | some span =>
    if stop ≤ span.start then (false, false)
    else if span.start ≤ start ∧ stop ≤ span.stop then (true, false)
    else (false, true)

def encryptedTokenLength (plaintextBytes : Nat) : Nat :=
  let encoded := Redaction.encodedLen (plaintextBytes + 16)
  Redaction.redactionTokenPrefix.length + (Decimal.digits encoded).length + 1 + encoded

section Rewriting

variable (c : Compiled) (cipher : Option TokenCipher) (value : Text)

abbrev TextMatch := IntervalRuns.Interval (Fin c.rules.length)

def Compiled.rule (i : Fin c.rules.length) : Rule := (c.rules.get i).1

def Compiled.found (i : Fin c.rules.length) : List (Nat × Nat) :=
  (c.rules.get i).2.findAllStringIndex value

def addMatch (i : Fin c.rules.length) (spans : List (TextMatch c)) (span : Nat × Nat) :
    Except ErrContent (List (TextMatch c)) :=
  if span.1 = span.2 then .ok spans
  else if (c.rule i).mode = .encrypt ∧ cipher.isNone then .error .errContent
  else if maxMatches < spans.length + 1 then .error .errContent
  else .ok (spans ++ [⟨span.1, span.2, i⟩])

def addMatches (spans : List (TextMatch c)) (i : Fin c.rules.length) :
    Except ErrContent (List (TextMatch c)) :=
  let hits := (c.found value i).take (maxMatches + 1)
  if maxMatches < hits.length then .error .errContent
  else hits.foldlM (addMatch c cipher i) spans

def textMatches : Except ErrContent (List (TextMatch c)) :=
  (List.finRange c.rules.length).foldlM (addMatches c cipher value) []

variable {c} in
def filterMatch (protectedSpans : List TokenSpan) (filtered : List (TextMatch c))
    (span : TextMatch c) : Except ErrContent (List (TextMatch c)) :=
  let (inside, crossing) := protectedMatch protectedSpans span.start span.stop
  if crossing then .error .errContent
  else if inside then .ok filtered
  else .ok (filtered ++ [span])

variable {c} in
/-- The matches are sorted by their starts, and by their rules where these are equal. -/
def matchKey (m : TextMatch c) : ℕ ×ₗ Fin c.rules.length := toLex (m.start, m.label)

variable {c} in
def sortMatches (spans : List (TextMatch c)) : List (TextMatch c) :=
  spans.insertionSort (Order.Preimage matchKey (· ≤ ·))

/-- The text that stands for a run, none where its encryption fails. -/
def runReplacement (run : TextMatch c) : Option Text :=
  match (c.rule run.label).mode with
  | .replace => some (c.rule run.label).replacement
  | .encrypt => cipher.bind fun encryptToken => encryptToken (value.extract run.start run.stop)

def replacementBytes (run : TextMatch c) : Nat :=
  match (c.rule run.label).mode with
  | .replace => (c.rule run.label).replacement.length
  | .encrypt => encryptedTokenLength (value.extract run.start run.stop).length

def finalBytes (merged : List (TextMatch c)) : Int :=
  merged.foldl (fun total run =>
    total + ((replacementBytes c value run : Int) - ((run.stop : Int) - run.start))) value.length

def writeRuns : Nat → Text → List (TextMatch c) → Except ErrContent Text
  | pos, out, [] =>
    if maxTextBytes < out.length + value.length - pos then .error .errContent
    else .ok (out ++ value.drop pos)
  | pos, out, run :: rest =>
    match runReplacement c cipher value run with
    | none => .error .errContent
    | some text =>
      if maxTextBytes < out.length + run.start - pos + text.length then .error .errContent
      else writeRuns run.stop (out ++ value.extract pos run.start ++ text) rest

def writeMerged (merged : List (TextMatch c)) : Except ErrContent Text :=
  if (maxTextBytes : Int) < finalBytes c value merged ∨ finalBytes c value merged < 0 then
    .error .errContent
  else writeRuns c cipher value 0 [] merged

def rewriteText (protectedSpans : List TokenSpan) : Except ErrContent Text := do
  let spans ← textMatches c cipher value
  let filtered ← spans.foldlM (filterMatch protectedSpans) []
  match sortMatches filtered with
  | [] => pure value
  | span :: rest => writeMerged c cipher value (merge span rest)

end Rewriting

/-- The text from a position on, with each run replaced by the text beside it. -/
def splice {ι : Type} (value : Text) : Nat → List (IntervalRuns.Interval ι × Text) → Text
  | pos, [] => value.drop pos
  | pos, (run, text) :: rest => value.extract pos run.start ++ text ++ splice value run.stop rest

section Protection

variable {spans : List TokenSpan} {start stop : Nat}

def TokenSpan.Overlaps (span : TokenSpan) (start stop : Nat) : Prop :=
  span.start < stop ∧ start < span.stop

def TokenSpan.Contains (span : TokenSpan) (start stop : Nat) : Prop :=
  span.start ≤ start ∧ stop ≤ span.stop

/-- The spans stand in the order of the text and do not overlap. -/
def InOrder (spans : List TokenSpan) : Prop := spans.Pairwise fun a b => a.stop ≤ b.start

theorem InOrder.start_le (h : InOrder spans) {i j : Nat} {a b : TokenSpan} (hij : i ≤ j)
    (hi : spans[i]? = some a) (hj : spans[j]? = some b) : a.start ≤ b.start := by
  obtain ⟨hilt, rfl⟩ := List.getElem?_eq_some_iff.mp hi
  obtain ⟨hjlt, rfl⟩ := List.getElem?_eq_some_iff.mp hj
  rcases Nat.eq_or_lt_of_le hij with rfl | hlt
  · exact le_rfl
  · exact le_trans spans[i].ordered (pairwise_iff_getElem.mp h i j hilt hjlt hlt)

theorem InOrder.eq_of_overlaps (h : InOrder spans) {a b : TokenSpan} (ha : a ∈ spans)
    (hb : b ∈ spans) (hab : a.Overlaps b.start b.stop) : a = b := by
  by_contra hne
  have hapart : spans.Pairwise fun a b => a.stop ≤ b.start ∨ b.stop ≤ a.start := h.imp .inl
  have hsymm : Std.Symm fun a b : TokenSpan => a.stop ≤ b.start ∨ b.stop ≤ a.start :=
    ⟨fun _ _ => .symm⟩
  rcases hapart.forall ha hb hne with hle | hle
  · exact absurd hab.2 (Nat.not_lt.mpr hle)
  · exact absurd hab.1 (Nat.not_lt.mpr hle)

theorem protectedMatch_cases (h : InOrder spans) (start stop : Nat) :
    (protectedMatch spans start stop = (true, false) ∧ ∃ span ∈ spans, span.Contains start stop) ∨
      protectedMatch spans start stop = (false, true) ∨
      (protectedMatch spans start stop = (false, false) ∧
        ∀ span ∈ spans, ¬span.Overlaps start stop) := by
  have hsorted := pairwise_map.mpr (h.imp fun {a b} hab => le_trans hab b.ordered)
  have hfirst := (BinarySearch.Between.whole (spans.map TokenSpan.stop) (start + 1)).lowerBound
    hsorted
  rw [length_map] at hfirst
  unfold protectedMatch
  generalize BinarySearch.lowerBound (spans.map TokenSpan.stop) (start + 1) 0 spans.length = k
    at hfirst
  have hbelow : ∀ i span, i < k → spans[i]? = some span → ¬span.Overlaps start stop := by
    intro i span hi hspan hoverlap
    have hstop := hfirst.below i span.stop hi (by rw [getElem?_map, hspan]; rfl)
    exact absurd hoverlap.2 (by omega)
  split
  · rename_i hnone
    refine .inr (.inr ⟨rfl, fun span hspan => ?_⟩)
    obtain ⟨i, hi⟩ := getElem?_of_mem hspan
    have hlt := (List.getElem?_eq_some_iff.mp hi).1
    exact hbelow i span (Nat.lt_of_lt_of_le hlt (List.getElem?_eq_none_iff.mp hnone)) hi
  · rename_i first hk
    split
    · rename_i hafter
      refine .inr (.inr ⟨rfl, fun span hspan => ?_⟩)
      obtain ⟨i, hi⟩ := getElem?_of_mem hspan
      rcases Nat.lt_or_ge i k with hlt | hge
      · exact hbelow i span hlt hi
      · intro hoverlap
        exact absurd hoverlap.1 (Nat.not_lt.mpr (le_trans hafter (h.start_le hge hk hi)))
    · split
      · rename_i hinside
        exact .inl ⟨rfl, first, mem_of_getElem? hk, hinside⟩
      · exact .inr (.inl rfl)

theorem protectedMatch_crossing (h : InOrder spans) {span : TokenSpan} (hspan : span ∈ spans)
    (hoverlap : span.Overlaps start stop) (hcross : ¬span.Contains start stop) :
    protectedMatch spans start stop = (false, true) := by
  rcases protectedMatch_cases h start stop with ⟨-, other, hother, hinside⟩ | hcrossing | ⟨-, hfree⟩
  · have hsame : span = other :=
      h.eq_of_overlaps hspan hother ⟨Nat.lt_of_lt_of_le hoverlap.1 hinside.2,
        Nat.lt_of_le_of_lt hinside.1 hoverlap.2⟩
    exact absurd (hsame ▸ hinside) hcross
  · exact hcrossing
  · exact absurd hoverlap (hfree span hspan)

end Protection

section Result

variable {c : Compiled} {cipher : Option TokenCipher} {value : Text}
  {protectedSpans : List TokenSpan}

def Compiled.Matches (c : Compiled) (value : Text) (m : TextMatch c) : Prop :=
  m.start ≠ m.stop ∧ (m.start, m.stop) ∈ c.found value m.label

theorem Compiled.Matches.lt {m : TextMatch c} (h : c.Matches value m) : m.start < m.stop :=
  Nat.lt_of_le_of_ne ((c.rules.get m.label).2.ordered value _ h.2) h.1

variable {i : Fin c.rules.length} {spans : List (TextMatch c)}

theorem addMatch_ok {spans' : List (TextMatch c)} {span : Nat × Nat}
    (h : addMatch c cipher i spans span = .ok spans') (m : TextMatch c) :
    m ∈ spans' ↔ m ∈ spans ∨ m.label = i ∧ m.start ≠ m.stop ∧ (m.start, m.stop) = span := by
  unfold addMatch at h
  split at h
  · rename_i hempty
    cases h
    constructor
    · exact .inl
    · rintro (hm | ⟨-, hne, rfl⟩)
      · exact hm
      · exact absurd hempty hne
  · rename_i hne
    split at h
    · cases h
    · split at h
      · cases h
      · cases h
        rw [mem_append, mem_singleton]
        constructor
        · rintro (hm | rfl)
          · exact .inl hm
          · exact .inr ⟨rfl, hne, rfl⟩
        · rintro (hm | ⟨rfl, -, rfl⟩)
          · exact .inl hm
          · exact .inr rfl

theorem addMatches_ok {spans' : List (TextMatch c)}
    (h : addMatches c cipher value spans i = .ok spans') (m : TextMatch c) :
    m ∈ spans' ↔ m ∈ spans ∨ m.label = i ∧ c.Matches value m := by
  unfold addMatches at h
  simp only at h
  split at h
  · cases h
  · rename_i hfew
    rw [length_take] at hfew
    rw [take_of_length_le (by omega)] at h
    have hall := Traverse.foldlM_ok (fun done acc => ∀ m, m ∈ acc ↔
      m ∈ spans ∨ m.label = i ∧ m.start ≠ m.stop ∧ (m.start, m.stop) ∈ done)
      (fun done span acc acc' hacc hstep m => by
        rw [addMatch_ok hstep, hacc, mem_append, mem_singleton]
        tauto) (fun m => by simp) h m
    rw [hall]
    refine or_congr_right (and_congr_right ?_)
    rintro rfl
    rfl

theorem textMatches_ok (h : textMatches c cipher value = .ok spans) (m : TextMatch c) :
    m ∈ spans ↔ c.Matches value m := by
  have hall := Traverse.foldlM_ok (fun done acc => ∀ m, m ∈ acc ↔ m.label ∈ done ∧
    c.Matches value m) (fun done i acc acc' hacc hstep m => by
      rw [addMatches_ok hstep, hacc, mem_append, mem_singleton]
      tauto) (fun m => by simp) h m
  rw [hall]
  exact and_iff_right (mem_finRange _)

variable {filtered : List (TextMatch c)}

theorem filterMatch_ok {filtered' : List (TextMatch c)} {span : TextMatch c}
    (h : filterMatch protectedSpans filtered span = .ok filtered') :
    (protectedMatch protectedSpans span.start span.stop).2 = false ∧ ∀ m, m ∈ filtered' ↔
      m ∈ filtered ∨ m = span ∧ (protectedMatch protectedSpans m.start m.stop).1 = false := by
  unfold filterMatch at h
  simp only at h
  split at h
  · cases h
  · rename_i hcrossing
    refine ⟨Bool.eq_false_of_not_eq_true hcrossing, fun m => ?_⟩
    split at h
    · rename_i hinside
      cases h
      constructor
      · exact .inl
      · rintro (hm | ⟨rfl, hfree⟩)
        · exact hm
        · exact absurd (hinside.symm.trans hfree) (by decide)
    · rename_i hinside
      cases h
      rw [mem_append, mem_singleton]
      refine or_congr_right (iff_self_and.mpr ?_)
      rintro rfl
      exact Bool.eq_false_of_not_eq_true hinside

theorem filterMatches_ok (h : spans.foldlM (filterMatch protectedSpans) [] = .ok filtered) :
    (∀ m ∈ spans, (protectedMatch protectedSpans m.start m.stop).2 = false) ∧ ∀ m, m ∈ filtered ↔
      m ∈ spans ∧ (protectedMatch protectedSpans m.start m.stop).1 = false := by
  refine Traverse.foldlM_ok (fun done acc =>
    (∀ m ∈ done, (protectedMatch protectedSpans m.start m.stop).2 = false) ∧ ∀ m, m ∈ acc ↔
      m ∈ done ∧ (protectedMatch protectedSpans m.start m.stop).1 = false) ?_ ?_ h
  · rintro done span acc acc' ⟨hdone, hacc⟩ hstep
    obtain ⟨hcrossing, hacc'⟩ := filterMatch_ok hstep
    refine ⟨fun m hm => ?_, fun m => ?_⟩
    · rcases mem_append.mp hm with hm | hm
      · exact hdone m hm
      · rwa [mem_singleton.mp hm]
    · rw [hacc', hacc, mem_append, mem_singleton, or_and_right]
  · exact ⟨fun m hm => absurd hm not_mem_nil, fun m => by simp⟩

theorem sortMatches_starts (spans : List (TextMatch c)) :
    (sortMatches spans).Pairwise fun a b => a.start ≤ b.start := by
  refine (pairwise_insertionSort _ spans).imp fun h => ?_
  rcases Prod.Lex.le_iff.mp h with hlt | ⟨heq, -⟩
  · exact Nat.le_of_lt hlt
  · exact Nat.le_of_eq heq

theorem writeRuns_ok {merged : List (TextMatch c)} {pos : Nat} {out text : Text}
    (h : writeRuns c cipher value pos out merged = .ok text) :
    ∃ replaced : List (TextMatch c × Text), replaced.map Prod.fst = merged ∧
      (∀ r ∈ replaced, runReplacement c cipher value r.1 = some r.2) ∧
      text = out ++ splice value pos replaced := by
  induction merged generalizing pos out with
  | nil =>
    rw [writeRuns] at h
    split at h
    · cases h
    · cases h
      exact ⟨[], rfl, fun r hr => absurd hr not_mem_nil, rfl⟩
  | cons run rest ih =>
    rw [writeRuns] at h
    split at h
    · cases h
    · rename_i written hwritten
      split at h
      · cases h
      · obtain ⟨replaced, hruns, htexts, rfl⟩ := ih h
        refine ⟨(run, written) :: replaced, ?_, ?_, ?_⟩
        · rw [map_cons, hruns]
        · exact forall_mem_cons.mpr ⟨hwritten, htexts⟩
        · rw [splice, ← append_assoc, ← append_assoc]

def Unprotected (c : Compiled) (value : Text) (protectedSpans : List TokenSpan) :
    Set (TextMatch c) :=
  {m | c.Matches value m ∧ ∀ span ∈ protectedSpans, ¬span.Contains m.start m.stop}

theorem mem_filtered (horder : InOrder protectedSpans)
    (hspans : textMatches c cipher value = .ok spans)
    (h : spans.foldlM (filterMatch protectedSpans) [] = .ok filtered) (m : TextMatch c) :
    (m ∈ filtered ↔ m ∈ Unprotected c value protectedSpans) ∧
      (m ∈ filtered → ∀ span ∈ protectedSpans, ¬span.Overlaps m.start m.stop) := by
  obtain ⟨hcross, hkept⟩ := filterMatches_ok h
  have hmatches := textMatches_ok hspans m
  rw [hkept, hmatches]
  rcases protectedMatch_cases horder m.start m.stop with
    ⟨hmatch, span, hspan, hinside⟩ | hmatch | ⟨hmatch, hfree⟩
  · rw [hmatch]
    refine ⟨⟨fun hm => absurd hm.2 (by decide), fun hm => ?_⟩, fun hm => absurd hm.2 (by decide)⟩
    exact absurd hinside (hm.2 span hspan)
  · have hnot : ¬c.Matches value m := by
      intro hm
      have hcrossing := hcross m (hmatches.mpr hm)
      rw [hmatch] at hcrossing
      cases hcrossing
    exact ⟨⟨fun hm => absurd hm.1 hnot, fun hm => absurd hm.1 hnot⟩, fun hm => absurd hm.1 hnot⟩
  · rw [hmatch]
    refine ⟨⟨fun hm => ⟨hm.1, fun span hspan hinside => ?_⟩, fun hm => ⟨hm.1, rfl⟩⟩, fun _ => hfree⟩
    have hlt := hm.1.lt
    exact hfree span hspan ⟨Nat.lt_of_le_of_lt hinside.1 hlt, Nat.lt_of_lt_of_le hlt hinside.2⟩

theorem rewriteText_ok {out : Text} (h : rewriteText c cipher value protectedSpans = .ok out) :
    ∃ spans filtered, textMatches c cipher value = .ok spans ∧
      spans.foldlM (filterMatch protectedSpans) [] = .ok filtered ∧
      ∃ replaced : List (TextMatch c × Text), Runs {m | m ∈ filtered} (replaced.map Prod.fst) ∧
        (∀ r ∈ replaced, runReplacement c cipher value r.1 = some r.2) ∧
        out = splice value 0 replaced := by
  obtain ⟨spans, hspans, h⟩ := Traverse.bind_ok.mp h
  obtain ⟨filtered, hfiltered, h⟩ := Traverse.bind_ok.mp h
  refine ⟨spans, filtered, hspans, hfiltered, ?_⟩
  have hstarts := sortMatches_starts filtered
  have hmem : ∀ m, m ∈ sortMatches filtered ↔ m ∈ filtered := fun m => mem_insertionSort _
  simp only [← hmem]
  have hlt : ∀ m ∈ sortMatches filtered, m.start < m.stop := by
    intro m hm
    have hspan := (((filterMatches_ok hfiltered).2 m).mp ((hmem m).mp hm)).1
    exact ((textMatches_ok hspans m).mp hspan).lt
  generalize sortMatches filtered = sorted at h hstarts hlt ⊢
  cases sorted with
  | nil =>
    cases h
    exact ⟨[], .nil, nofun, rfl⟩
  | cons span rest =>
    change writeMerged c cipher value (merge span rest) = .ok out at h
    unfold writeMerged at h
    split at h
    · cases h
    · obtain ⟨replaced, hruns, htexts, hout⟩ := writeRuns_ok h
      refine ⟨replaced, ?_, htexts, hout⟩
      rw [hruns]
      exact merge_runs hstarts fun m hm => hlt m (.tail _ hm)

def samplePattern (spans : List (Nat × Nat)) (h : ∀ span ∈ spans, span.1 ≤ span.2) : Pattern :=
  ⟨fun _ => spans, fun _ => h⟩

def sampleRules : Compiled :=
  ⟨[(⟨[], .encrypt⟩, samplePattern [(1, 3)] (by decide)),
    (⟨ascii "X", .replace⟩, samplePattern [(2, 4), (6, 7)] (by decide))]⟩

def sampleCipher : Option TokenCipher := some fun text => some (44 :: text)

/-- A match that crosses the border of a protected token fails the call. In the text that
is returned, each run of overlapping matches outside the tokens is replaced, by its first
rule and at once, and the rest of the text stands as it was, with every token. -/
theorem rewriteText_replaces_runs (c : Compiled) (cipher : Option TokenCipher) (value : Text)
    (protectedSpans : List TokenSpan) (horder : InOrder protectedSpans) :
    ((∃ m, c.Matches value m ∧ ∃ span ∈ protectedSpans, span.Overlaps m.start m.stop ∧
        ¬span.Contains m.start m.stop) →
      rewriteText c cipher value protectedSpans = .error .errContent) ∧
    ∀ out, rewriteText c cipher value protectedSpans = .ok out →
      ∃ replaced : List (TextMatch c × Text),
        Runs (Unprotected c value protectedSpans) (replaced.map Prod.fst) ∧
        (∀ p, (∃ run ∈ replaced.map Prod.fst, run.start ≤ p ∧ p < run.stop) ↔
          ∃ m ∈ Unprotected c value protectedSpans, m.start ≤ p ∧ p < m.stop) ∧
        (∀ span ∈ protectedSpans, ∀ run ∈ replaced.map Prod.fst,
          ¬span.Overlaps run.start run.stop) ∧
        (∀ r ∈ replaced, runReplacement c cipher value r.1 = some r.2) ∧
        out = splice value 0 replaced := by
  constructor
  · rintro ⟨m, hm, span, hspan, hoverlap, hcross⟩
    cases hresult : rewriteText c cipher value protectedSpans with
    | error e => rfl
    | ok out =>
      obtain ⟨spans, filtered, hspans, hfiltered, -⟩ := rewriteText_ok hresult
      have hfree := (filterMatches_ok hfiltered).1 m ((textMatches_ok hspans m).mpr hm)
      rw [protectedMatch_crossing horder hspan hoverlap hcross] at hfree
      cases hfree
  · intro out h
    obtain ⟨spans, filtered, hspans, hfiltered, replaced, hruns, htexts, hout⟩ := rewriteText_ok h
    have hmem := mem_filtered horder hspans hfiltered
    have hset : {m | m ∈ filtered} = Unprotected c value protectedSpans :=
      Set.ext fun m => (hmem m).1
    rw [hset] at hruns
    have hlt : ∀ m ∈ Unprotected c value protectedSpans, m.start < m.stop := fun m hm => hm.1.lt
    refine ⟨replaced, hruns, hruns.covered hlt, ?_, htexts, hout⟩
    rintro span hspan run hrun ⟨hleft, hright⟩
    obtain ⟨m, hm, hstop, hstart⟩ := hruns.meets hlt hrun span.ordered hright hleft
    exact (hmem m).2 ((hmem m).1.mpr hm) span hspan ⟨hstop, hstart⟩

theorem rewriteText_replaces_runs_sample :
    (rewriteText sampleRules sampleCipher (ascii "abcdefgh") [⟨5, 8, by decide⟩] =
        .ok (ascii "a,bcdefgh") ∧
      ∃ replaced : List (TextMatch sampleRules × Text),
        ascii "a,bcdefgh" = splice (ascii "abcdefgh") 0 replaced) ∧
    rewriteText sampleRules sampleCipher (ascii "abcdefgh") [⟨0, 2, by decide⟩] =
      .error .errContent := by
  have hresult := rewriteText_replaces_runs sampleRules sampleCipher (ascii "abcdefgh")
  constructor
  · have hout : rewriteText sampleRules sampleCipher (ascii "abcdefgh") [⟨5, 8, by decide⟩] =
        .ok (ascii "a,bcdefgh") := by decide +kernel
    obtain ⟨replaced, -, -, -, -, hsplice⟩ := (hresult _ (pairwise_singleton _ _)).2 _ hout
    exact ⟨hout, replaced, hsplice⟩
  · refine (hresult _ (pairwise_singleton _ _)).1 ?_
    exact ⟨⟨1, 3, ⟨0, by decide⟩⟩, ⟨by decide, by decide⟩, _, mem_singleton_self _,
      ⟨by decide, by decide⟩, fun h => absurd h.2 (by decide)⟩

end Result

end EchoJoyGateway.RequestRedact
