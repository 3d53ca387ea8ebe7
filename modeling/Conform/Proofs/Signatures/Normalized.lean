import Conform.Proofs.Document.Order
import Conform.Proofs.Double.Order
import Conform.Proofs.Signatures.Overlay
import Conform.Proofs.Text.Lower

/-! Manifests in order. What a manifest is brought into is said on its own: ids that are not blank and differ, positive
thresholds and weights, endings in ascending order, types without blanks and in lower case. A manifest of that kind
stays as it is, so bringing a manifest into order twice makes no difference. -/
namespace Conform.Signatures.Manifest

variable {m : Manifest} {s : Signature} {ss : List Signature} {t u raw : Text} {ts : List Text} {a : Matcher}

/-! ### Endings -/

/-- Whether an ending has a dot in front and is in lower case, without blanks around it. -/
structure IsNormalExtension (t : Text) : Prop where
  dot : t.startsWith "." = true
  trimmed : Text.IsTrimmed t
  low : t.lower = t

theorem startsWith_dot_iff : t.startsWith "." = true ↔ ∃ rest, t = Point.ofChar '.' :: rest := by
  rw [Text.startsWith, List.isPrefixOf_iff_prefix]
  constructor
  · rintro ⟨rest, rfl⟩
    exact ⟨rest, rfl⟩
  · rintro ⟨rest, rfl⟩
    exact ⟨rest, rfl⟩

theorem startsWith_dot_lower (h : t.startsWith "." = true) : t.lower.startsWith "." = true := by
  obtain ⟨rest, rfl⟩ := startsWith_dot_iff.mp h
  have hDot : (Point.ofChar '.').IsLow := ⟨by decide +kernel, by decide, by decide⟩
  rw [startsWith_dot_iff, Text.lower_eq_lowerAfter, Text.lowerAfter_cons, Text.lowOf_of_isLow hDot]
  exact ⟨_, rfl⟩

theorem isTrimmed_dot_append (hSome : t ≠ []) (h : Text.IsTrimmed t) : Text.IsTrimmed ("." ++ t) := by
  obtain ⟨-, hLast⟩ := Text.isTrimmed_iff.mp h
  refine Text.isTrimmed_iff.mpr ⟨?_, ?_⟩
  · intro p hMem
    obtain rfl : Point.ofChar '.' = p := Option.some.inj hMem
    decide
  · intro p hMem
    apply hLast
    rwa [← List.getLast?_append_of_ne_nil (Text.ofString ".") hSome]

theorem isNormalExtension_of_normalExtension? (h : normalExtension? raw = some t) : IsNormalExtension t := by
  have hTrimmed := Text.isTrimmed_strip raw
  simp only [normalExtension?] at h
  split at h
  · cases h
  · next hSome =>
      obtain rfl := Option.some.inj h
      split
      · next hDot => exact ⟨startsWith_dot_lower hDot, Text.isTrimmed_lower hTrimmed, Text.lower_lower _⟩
      · have hDot : ("." ++ raw.strip).startsWith "." = true := startsWith_dot_iff.mpr ⟨_, rfl⟩
        have hWhole := isTrimmed_dot_append (by simpa using hSome) hTrimmed
        exact ⟨startsWith_dot_lower hDot, Text.isTrimmed_lower hWhole, Text.lower_lower _⟩

theorem IsNormalExtension.normalExtension?_eq (h : IsNormalExtension t) : normalExtension? t = some t := by
  have hSome : t.isEmpty = false := by
    obtain ⟨rest, rfl⟩ := startsWith_dot_iff.mp h.dot
    rfl
  have hStrip : t.strip = t := h.trimmed
  simp only [normalExtension?, hStrip, hSome, h.dot, h.low, Bool.false_eq_true, if_false, if_true]

/-! ### Sorted lists without repetitions -/

theorem mem_dropRepeated (ts : List Text) : t ∈ dropRepeated ts ↔ t ∈ ts := by
  induction ts using dropRepeated.induct with
  | case1 a b rest hSame ih =>
      rw [dropRepeated, if_pos hSame, ih]
      simp [eq_of_beq hSame]
  | case2 a b rest hOther ih => rw [dropRepeated, if_neg hOther, List.mem_cons, ih, List.mem_cons (a := t) (b := a)]
  | case3 ts hShort => rw [dropRepeated]; exact hShort

theorem pairwise_dropRepeated (h : ts.Pairwise fun t u => Text.le t u = true) :
    (dropRepeated ts).Pairwise fun t u => Text.lt t u = true := by
  induction ts using dropRepeated.induct with
  | case1 a b rest hSame ih =>
      rw [dropRepeated, if_pos hSame]
      exact ih h.of_cons
  | case2 a b rest hOther ih =>
      rw [dropRepeated, if_neg hOther]
      obtain ⟨hFirst, hRest⟩ := List.pairwise_cons.mp h
      refine List.pairwise_cons.mpr ⟨fun t hMem => ?_, ih hRest⟩
      rw [mem_dropRepeated] at hMem
      apply Text.lt_of_le_of_ne (hFirst t hMem)
      -- If the first were among those behind the second, the second would be it as well.
      rintro rfl
      have hBack : Text.le b a = true := by
        rcases List.mem_cons.mp hMem with rfl | hMem
        · exact absurd BEq.rfl hOther
        · exact (List.pairwise_cons.mp hRest).1 a hMem
      exact hOther (beq_iff_eq.mpr (Text.le_antisymm (hFirst b List.mem_cons_self) hBack))
  | case3 ts hShort =>
      rw [dropRepeated]
      · match ts, hShort with
        | [], _ => exact List.Pairwise.nil
        | [a], _ => exact List.pairwise_singleton _ a
        | a :: b :: rest, hShort => exact absurd rfl (hShort a b rest)
      · exact hShort

theorem dropRepeated_of_pairwise (h : ts.Pairwise fun t u => Text.lt t u = true) : dropRepeated ts = ts := by
  induction ts using dropRepeated.induct with
  | case1 a b rest hSame ih =>
      have hLess := (List.pairwise_cons.mp h).1 b List.mem_cons_self
      rw [eq_of_beq hSame, Text.lt_irrefl] at hLess
      cases hLess
  | case2 a b rest hOther ih => rw [dropRepeated, if_neg hOther, ih h.of_cons]
  | case3 ts hShort => rw [dropRepeated]; exact hShort

theorem pairwise_normalExtensions (ts : List Text) :
    (normalExtensions ts).Pairwise fun t u => Text.lt t u = true :=
  pairwise_dropRepeated (List.pairwise_mergeSort Text.le_trans Text.le_total _)

theorem mem_normalExtensions : t ∈ normalExtensions ts ↔ ∃ raw ∈ ts, normalExtension? raw = some t := by
  rw [normalExtensions, mem_dropRepeated, Text.sorted, List.mem_mergeSort, List.mem_filterMap]

theorem normalExtensions_of_normal (hAscending : ts.Pairwise fun t u => Text.lt t u = true)
    (hEach : ∀ t ∈ ts, IsNormalExtension t) : normalExtensions ts = ts := by
  have hSame : ts.filterMap normalExtension? = ts := by
    rw [List.filterMap_congr fun t hMem => (hEach t hMem).normalExtension?_eq, List.filterMap_some]
  have hSorted : Text.sorted ts = ts := List.mergeSort_of_pairwise (hAscending.imp Text.le_of_lt)
  rw [normalExtensions, hSame, hSorted, dropRepeated_of_pairwise hAscending]

/-! ### Signatures -/

/-- Whether a mark has a positive weight and a type in lower case, without blanks around it. -/
structure IsNormalMatcher (a : Matcher) : Prop where
  weight : a.weight.isPositive = true
  trimmed : Text.IsTrimmed a.type
  low : a.type.lower = a.type

/-- Whether the threshold of a signature is positive, its endings are in order and its marks as they should be. -/
structure IsNormalSignature (s : Signature) : Prop where
  threshold : s.threshold.isPositive = true
  ascending : s.extensions.Pairwise fun t u => Text.lt t u = true
  extensions : ∀ t ∈ s.extensions, IsNormalExtension t
  matchers : ∀ a ∈ s.matchers, IsNormalMatcher a

/-- What of a signature is changed when it is brought into order: a threshold or a weight only if it is not positive,
the endings and the types of marks in form alone, and nothing else at all. -/
structure Tidies (old new : Signature) : Prop where
  kept : new = { old with threshold := new.threshold, extensions := new.extensions, matchers := new.matchers }
  threshold : old.threshold.isPositive = true → new.threshold = old.threshold
  extensions : ∀ t, t ∈ new.extensions ↔ ∃ raw ∈ old.extensions, normalExtension? raw = some t
  matchers : List.Forall₂ (fun a b => b = { a with type := a.type.strip.lower, weight := b.weight } ∧
    (a.weight.isPositive = true → b.weight = a.weight)) old.matchers new.matchers

theorem isNormalMatcher_normalMatcher (a : Matcher) : IsNormalMatcher (normalMatcher a) where
  weight := by
    simp only [normalMatcher]
    split
    · assumption
    · decide +kernel
  trimmed := Text.isTrimmed_lower (Text.isTrimmed_strip a.type)
  low := Text.lower_lower a.type.strip

theorem normalMatcher_of_isNormal (h : IsNormalMatcher a) : normalMatcher a = a := by
  have hType : a.type.strip = a.type := h.trimmed
  simp only [normalMatcher, h.weight, if_true, hType, h.low]

theorem not_le_of_isPositive {x : Double} (h : x.isPositive = true) : x.le .zero = false :=
  (Double.le_zero_eq_false_iff (Double.ne_nan_of_isPositive h)).mpr h

theorem isNormal_normalSignature (hNumber : s.threshold ≠ .nan) : IsNormalSignature (normalSignature s) where
  threshold := by
    simp only [normalSignature]
    split
    · decide +kernel
    · next hLess => exact (Double.le_zero_eq_false_iff hNumber).mp (by simpa using hLess)
  ascending := pairwise_normalExtensions s.extensions
  extensions := by
    intro t hMem
    obtain ⟨raw, -, hNormal⟩ := mem_normalExtensions.mp hMem
    exact isNormalExtension_of_normalExtension? hNormal
  matchers := List.forall_mem_map.mpr fun a _ => isNormalMatcher_normalMatcher a

theorem normalSignature_of_isNormal (h : IsNormalSignature s) : normalSignature s = s := by
  have hMatchers : s.matchers.map normalMatcher = s.matchers := by
    rw [List.map_congr_left fun a hMem => normalMatcher_of_isNormal (h.matchers a hMem), List.map_id']
  simp only [normalSignature, not_le_of_isPositive h.threshold, Bool.false_eq_true, if_false, hMatchers,
    normalExtensions_of_normal h.ascending h.extensions]

theorem tidies_normalSignature (s : Signature) : Tidies s (normalSignature s) where
  kept := rfl
  threshold := by
    intro hPositive
    simp only [normalSignature, not_le_of_isPositive hPositive, Bool.false_eq_true, if_false]
  extensions := fun t => mem_normalExtensions
  matchers := by
    refine List.forall₂_map_right_iff.mpr (List.forall₂_same.mpr fun a _ => ⟨rfl, fun hPositive => ?_⟩)
    simp only [normalMatcher, hPositive, if_true]

/-! ### Manifests -/

/-- Whether the ids of a manifest are not blank and differ, and all its signatures are as they should be. -/
structure IsNormal (m : Manifest) : Prop where
  named : ∀ s ∈ m.signatures, key s ≠ []
  distinct : (m.signatures.map key).Nodup
  signatures : ∀ s ∈ m.signatures, IsNormalSignature s

theorem distinct_of_nodup {seen : List Text} (hNodup : (ss.map key).Nodup)
    (hFresh : ∀ s ∈ ss, key s ≠ [] ∧ key s ∉ seen) : distinct seen ss = ss := by
  induction ss generalizing seen with
  | nil => rfl
  | cons s rest ih =>
      obtain ⟨⟨hSome, hUnseen⟩, hRest⟩ := List.forall_mem_cons.mp hFresh
      obtain ⟨hOther, hNodup⟩ := List.nodup_cons.mp hNodup
      have hKept : ((key s).isEmpty || seen.contains (key s)) = false := by simp [hSome, hUnseen]
      have hTail : distinct (key s :: seen) rest = rest := by
        apply ih hNodup
        intro t hMem
        refine ⟨(hRest t hMem).1, ?_⟩
        rw [List.mem_cons, not_or]
        exact ⟨fun hSame => hOther (hSame ▸ List.mem_map_of_mem hMem), (hRest t hMem).2⟩
      rw [distinct, hKept, hTail]
      rfl

/-- Of the keys that are not blank and have not been seen, the first occurrences are kept. -/
theorem map_key_distinct (seen : List Text) (ss : List Signature) : (distinct seen ss).map key =
    ((ss.map key).filter fun k => k ≠ [] ∧ k ∉ seen).eraseDups := by
  induction ss generalizing seen with
  | nil => rfl
  | cons s rest ih =>
      rw [distinct, List.map_cons]
      split
      · next hGone =>
          have hFails : ¬(key s ≠ [] ∧ key s ∉ seen) := by
            simp only [Bool.or_eq_true, List.isEmpty_iff, List.contains_iff_mem] at hGone
            tauto
          rw [ih, List.filter_cons_of_neg (by simpa using hFails)]
      · next hKept =>
          have hPasses : key s ≠ [] ∧ key s ∉ seen := by
            simpa [not_or] using hKept
          have hNew : ∀ k, decide (k ≠ [] ∧ k ∉ key s :: seen) =
              (decide (k ≠ [] ∧ k ∉ seen) && !k == key s) := by
            intro k
            by_cases hSame : k = key s <;> simp [hSame]
          rw [List.map_cons, ih, eraseDups_filter_cons (by simpa using hPasses) hNew]

theorem normalize_of_isNormal (h : m.IsNormal) : m.normalize = m := by
  have hDistinct : distinct [] m.signatures = m.signatures :=
    distinct_of_nodup h.distinct fun s hMem => ⟨h.named s hMem, List.not_mem_nil⟩
  have hEach : m.signatures.map normalSignature = m.signatures := by
    rw [List.map_congr_left fun s hMem => normalSignature_of_isNormal (h.signatures s hMem), List.map_id']
  rw [normalize, hDistinct, hEach]

theorem map_key_normalize (m : Manifest) :
    m.normalize.signatures.map key = ((m.signatures.map key).filter (· ≠ [])).eraseDups := by
  have hKeys : m.normalize.signatures.map key = (distinct [] m.signatures).map key := by
    rw [normalize, List.map_map]
    rfl
  rw [hKeys, map_key_distinct]
  simp

theorem exists_of_mem_normalize (h : s ∈ m.normalize.signatures) :
    ∃ t, m.signatures.find? (key · == key s) = some t ∧ s = normalSignature t := by
  obtain ⟨t, hMem, rfl⟩ := List.mem_map.mp h
  obtain ⟨hNodup, hNames⟩ := nodup_distinct [] m.signatures
  have hFound : m.signatures.find? (key · == key t) = some t := by
    rw [← find?_distinct (hNames t hMem).1 [] List.not_mem_nil]
    exact find?_of_mem hNodup hMem
  exact ⟨t, hFound, rfl⟩

theorem nodup_normalize (m : Manifest) : (m.normalize.signatures.map key).Nodup := by
  rw [normalize, List.map_map]
  exact (nodup_distinct [] m.signatures).1

theorem key_ne_nil_of_mem_normalize (h : s ∈ m.normalize.signatures) : key s ≠ [] := by
  obtain ⟨t, hMem, rfl⟩ := List.mem_map.mp h
  exact ((nodup_distinct [] m.signatures).2 t hMem).1

theorem isNormal_normalize (hNumbers : ∀ s ∈ m.signatures, s.threshold ≠ .nan) : m.normalize.IsNormal where
  named := fun s hMem => key_ne_nil_of_mem_normalize hMem
  distinct := nodup_normalize m
  signatures := by
    intro s hMem
    obtain ⟨t, hFound, rfl⟩ := exists_of_mem_normalize hMem
    exact isNormal_normalSignature (hNumbers t (List.mem_of_find?_eq_some hFound))

/-- Bringing a manifest into order twice makes no difference. What comes of it is in order: its ids are the first
occurrences of those of the manifest that are not blank, and each signature is the first one with its id, with
nothing changed but what has to be. -/
theorem normalize_in_order (hNumbers : ∀ s ∈ m.signatures, s.threshold ≠ .nan) :
    m.normalize.normalize = m.normalize ∧ m.normalize.IsNormal ∧ m.normalize.version = m.version ∧
      m.normalize.signatures.map key = ((m.signatures.map key).filter (· ≠ [])).eraseDups ∧
      ∀ s ∈ m.normalize.signatures, ∃ t, m.signatures.find? (key · == key s) = some t ∧ Tidies t s := by
  have hNormal := isNormal_normalize hNumbers
  refine ⟨normalize_of_isNormal hNormal, hNormal, rfl, map_key_normalize m, fun s hMem => ?_⟩
  obtain ⟨t, hFound, rfl⟩ := exists_of_mem_normalize hMem
  exact ⟨t, hFound, tidies_normalSignature t⟩

/-- A mark of no weight, with blanks around its type. -/
def looseMatcher : Matcher := ⟨" Contains", "x", [], .zero, false⟩

/-- Three signatures, of which one has no id and two have the same but for a blank and case. -/
def untidy : Manifest where
  version := "1"
  signatures := [
    ⟨" A", "kept", [], .ofDecimal true 1 0, [], ["YML ", ".json", " ", "json", ".yml"], [looseMatcher], [], []⟩,
    ⟨"\t", [], [], .zero, [], [], [], [], []⟩,
    ⟨"a", "dropped", [], .zero, [], [], [], [], []⟩]

theorem normalize_in_order_untidy : (∀ s ∈ untidy.signatures, s.threshold ≠ .nan) ∧
    untidy.normalize.normalize = untidy.normalize ∧ untidy.normalize.IsNormal ∧
    untidy.normalize.signatures.map key = [Text.ofString "a"] ∧
    untidy.normalize.signatures.map Signature.category = [Text.ofString "kept"] ∧
    untidy.normalize.signatures.map Signature.threshold = [usualThreshold] := by
  have hNumbers : ∀ s ∈ untidy.signatures, s.threshold ≠ .nan := by decide +kernel
  obtain ⟨hTwice, hNormal, -, hKeys, -⟩ := normalize_in_order hNumbers
  exact ⟨hNumbers, hTwice, hNormal, hKeys.trans (by decide +kernel), by decide +kernel, by decide +kernel⟩

end Conform.Signatures.Manifest
