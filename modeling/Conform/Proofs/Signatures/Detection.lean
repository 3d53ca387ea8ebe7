import Conform.Proofs.Document.Order
import Conform.Proofs.Double.Order
import Conform.Proofs.Except
import Conform.Signatures.Detector
import Mathlib.Data.List.Induction

/-! What the signatures make of a content. Each prepared signature makes a match that its marks add up to, which may
count or not. There are two answers: the one match that is best, and all matches in order. They are taken from the same
signatures, but the first compares the sums of the weights and the second compares them cut off at one. -/
namespace Conform.Signatures

variable {g : Signature} {p : Prepared} {ms : List Matcher}

namespace Match

theorem scoreOf_concat (ms : List Matcher) (m : Matcher) : scoreOf (ms ++ [m]) = (scoreOf ms).add m.weight := by
  rw [scoreOf, List.foldl_append]
  rfl

theorem scoreOf_normal (ms : List Matcher) : (scoreOf ms).Normal := by
  induction ms using List.reverseRecOn with
  | nil => exact Double.zero_normal false
  | append_singleton rest m _ =>
      rw [scoreOf_concat]
      exact Double.add_normal _ _

end Match

namespace Prepared

/-- What is known of a signature that has been prepared. -/
structure Prepares (p : Prepared) (g : Signature) : Prop where
  signature : p.signature = g
  threshold : p.threshold.isPositive = true
  probes : g.matchers.filterMapM (Probe.ofMatcher? g.id) = .ok p.probes

theorem prepares_of_ofSignature? (h : ofSignature? g = .ok (some p)) : p.Prepares g := by
  obtain ⟨probes, hProbes, h⟩ := exists_of_bind_ok h
  split at h
  · cases h
  · obtain rfl := Option.some.inj (Except.ok.inj h)
    refine ⟨rfl, ?_, hProbes⟩
    dsimp only
    split
    · next hPositive => exact hPositive
    · decide +kernel

/-- The match that a signature makes, whether or not it counts. -/
def found (p : Prepared) (sample : Text) : Match :=
  ⟨p.signature, Match.scoreOf (p.fired sample sample.lower), p.fired sample sample.lower⟩

/-- Whether the match that a signature makes counts. -/
def qualifies (p : Prepared) (s : Scope) (path sample : Text) : Bool :=
  s.allows p.signature && p.acceptsPath path && p.threshold.le (p.found sample).score

end Prepared

theorem Detector.qualifying_eq (d : Detector) (s : Scope) (path sample : Text) :
    d.qualifying s path sample = (d.prepared.filter (·.qualifies s path sample)).map (·.found sample) := by
  rw [qualifying, ← List.filterMap_eq_map, List.filterMap_filter, List.filterMap_filter]
  refine List.filterMap_congr fun p _ => ?_
  cases hAllowed : s.allows p.signature && p.acceptsPath path <;> simp [Prepared.qualifies, Prepared.found, hAllowed]

end Conform.Signatures

/-! ### The best match and all matches -/

namespace Conform.Signatures

variable {s : Scope} {path sample : Text}

namespace Match

variable {a b c : Match} {x y : Double} {ms : List Match}

/-- A score that counts: a number above nothing. -/
structure Scored (m : Match) : Prop where
  normal : m.score.Normal
  positive : 0 < m.score.place

theorem Scored.ne_nan (h : a.Scored) : a.score ≠ .nan :=
  Double.ne_nan_of_isPositive (Double.isPositive_iff.mpr h.positive)

/-! ### Scores between nothing and one -/

theorem one_normal : one.Normal := Double.ofDecimal_normal false 1 0

theorem one_pos : 0 < one.place := Double.isPositive_iff.mp (by decide +kernel)

theorem clamp_eq (h : 0 < x.place) : clamp x = if x.place < one.place then x else one := by
  have hPositive := Double.isPositive_iff.mpr h
  have hLess : x.lt one = true ↔ x.place < one.place := Double.lt_iff (Double.ne_nan_of_isPositive hPositive)
  simp only [clamp, show Double.zero.lt x = true from hPositive, if_true, hLess]

theorem place_clamp (h : 0 < x.place) : (clamp x).place = min x.place one.place := by
  rw [clamp_eq h]
  split
  · next hLess => exact (min_eq_left hLess.le).symm
  · next hLess => exact (min_eq_right (not_lt.mp hLess)).symm

theorem Scored.clamped (h : a.Scored) : a.clamped.Scored where
  normal := by
    rw [show a.clamped.score = clamp a.score from rfl, clamp_eq h.positive]
    split
    · exact h.normal
    · exact one_normal
  positive := by
    rw [show a.clamped.score = clamp a.score from rfl, place_clamp h.positive]
    exact lt_min h.positive one_pos

/-- Cutting scores off keeps their order, though it may make them equal. -/
theorem place_clamped_le (hA : a.Scored) (hB : b.Scored) (h : a.score.place ≤ b.score.place) :
    a.clamped.score.place ≤ b.clamped.score.place :=
  calc (clamp a.score).place = min a.score.place one.place := place_clamp hA.positive
    _ ≤ min b.score.place one.place := min_le_min_right _ h
    _ = (clamp b.score).place := (place_clamp hB.positive).symm

/-! ### The order of matches -/

/-- The match with the greater score is first, and of equal scores the one with the lesser id. -/
def Before (a b : Match) : Prop :=
  b.score.place < a.score.place ∨ a.score.place = b.score.place ∧ a.signature.id.le b.signature.id = true

theorem le_iff (hA : a.Scored) (hB : b.Scored) : a.le b = true ↔ a.Before b := by
  unfold le Before
  by_cases hSame : a.score = b.score
  · simp [hSame]
  · have hPlaces : a.score.place ≠ b.score.place := fun h =>
      hSame (Double.eq_of_place_eq hA.normal hB.normal hA.positive h)
    simp [hSame, hPlaces, Double.lt_iff hB.ne_nan]

theorem Before.trans (hFirst : a.Before b) (hSecond : b.Before c) : a.Before c := by
  rcases hFirst with hMore | ⟨hSame, hIds⟩
  · rcases hSecond with hMore' | ⟨hSame', -⟩
    · exact Or.inl (hMore'.trans hMore)
    · exact Or.inl (hSame' ▸ hMore)
  · rcases hSecond with hMore' | ⟨hSame', hIds'⟩
    · exact Or.inl (hSame ▸ hMore')
    · exact Or.inr ⟨hSame.trans hSame', Text.le_trans _ _ _ hIds hIds'⟩

theorem Before.total (a b : Match) : a.Before b ∨ b.Before a := by
  rcases lt_trichotomy a.score.place b.score.place with hLess | hSame | hMore
  · exact Or.inr (Or.inl hLess)
  · rcases Bool.or_eq_true_iff.mp (Text.le_total a.signature.id b.signature.id) with hIds | hIds
    · exact Or.inl (Or.inr ⟨hSame, hIds⟩)
    · exact Or.inr (Or.inr ⟨hSame.symm, hIds⟩)
  · exact Or.inl (Or.inl hMore)

theorem Before.id_eq (h : a.Before b) (h' : b.Before a) : a.signature.id = b.signature.id := by
  rcases h with hMore | ⟨hSame, hIds⟩
  · rcases h' with hMore' | ⟨hSame', -⟩
    · exact absurd hMore' hMore.asymm
    · exact absurd hSame' hMore.ne
  · rcases h' with hMore' | ⟨-, hIds'⟩
    · exact absurd hSame hMore'.ne
    · exact Text.le_antisymm hIds hIds'

/-- The order is only one for scores that count, so the general law of sorting is used for `Before`. -/
theorem pairwise_mergeSort_le (h : ∀ m ∈ ms, m.Scored) : (ms.mergeSort le).Pairwise Before := by
  classical
  have hSame : ms.mergeSort le = ms.mergeSort fun a b => decide (a.Before b) := by
    have hMap := List.map_mergeSort (r := le) (s := fun a b => decide (a.Before b)) (f := id) (l := ms)
      fun a hA b hB => Bool.eq_iff_iff.mpr ((le_iff (h a hA) (h b hB)).trans decide_eq_true_iff.symm)
    rwa [List.map_id, List.map_id] at hMap
  rw [hSame]
  refine (List.pairwise_mergeSort ?_ ?_ ms).imp of_decide_eq_true
  · intro a b c hFirst hSecond
    exact decide_eq_true ((of_decide_eq_true hFirst).trans (of_decide_eq_true hSecond))
  · intro a b
    rw [Bool.or_eq_true, decide_eq_true_iff, decide_eq_true_iff]
    exact Before.total a b

end Match

namespace Detector

variable {m m' : Manifest} {d d' : Detector} {a b : Match} {ms : List Match} {os : List (Option Prepared)}

/-! ### The best match -/

/-- What is found among some matches: nothing if there are none, else the first of those with the highest score. -/
def Leads (ms : List Match) : Option Match → Prop
  | none => ms = []
  | some b => ∃ front back, ms = front ++ b :: back ∧ (∀ a ∈ front, a.score.place < b.score.place) ∧
      ∀ a ∈ back, a.score.place ≤ b.score.place

theorem mem_of_leads (h : Leads ms (some b)) : b ∈ ms := by
  obtain ⟨front, back, rfl, -, -⟩ := h
  simp

theorem place_le_of_leads (h : Leads ms (some b)) (hMem : a ∈ ms) : a.score.place ≤ b.score.place := by
  obtain ⟨front, back, rfl, hFront, hBack⟩ := h
  rcases List.mem_append.mp hMem with hIn | hIn
  · exact (hFront a hIn).le
  · rcases List.mem_cons.mp hIn with rfl | hIn
    · exact le_rfl
    · exact hBack a hIn

theorem best_concat (ms : List Match) (b : Match) : best (ms ++ [b]) =
    if ((best ms).elim .zero (·.score)).lt b.score then some b else best ms := by
  rw [best, List.foldl_append]
  change (if _ then _ else _) = _
  cases hFound : best ms <;> rw [best] at hFound <;> rw [hFound] <;> rfl

theorem leads_best (h : ∀ a ∈ ms, a.Scored) : Leads ms (best ms) := by
  induction ms using List.reverseRecOn with
  | nil => exact rfl
  | append_singleton rest b ih =>
      rw [List.forall_mem_append, List.forall_mem_singleton] at h
      obtain ⟨hRest, hLast⟩ := h
      have hLead := ih hRest
      rw [best_concat]
      cases hFound : best rest with
      | none =>
          rw [hFound] at hLead
          obtain rfl : rest = [] := hLead
          have hAbove : Double.zero.lt b.score = true := Double.isPositive_iff.mpr hLast.positive
          rw [Option.elim_none, if_pos hAbove]
          exact ⟨[], [], rfl, List.forall_mem_nil _, List.forall_mem_nil _⟩
      | some best =>
          rw [hFound] at hLead
          have hScored : best.Scored := hRest best (mem_of_leads hLead)
          rw [Option.elim_some]
          split
          · next hMore =>
              rw [Double.lt_iff hScored.ne_nan] at hMore
              exact ⟨rest, [], rfl, fun a hMem => (place_le_of_leads hLead hMem).trans_lt hMore,
                List.forall_mem_nil _⟩
          · next hMore =>
              rw [Double.lt_iff hScored.ne_nan, not_lt] at hMore
              obtain ⟨front, back, rfl, hFront, hBack⟩ := hLead
              refine ⟨front, back ++ [b], by simp, hFront, ?_⟩
              rw [List.forall_mem_append, List.forall_mem_singleton]
              exact ⟨hBack, hMore⟩

/-! ### The signatures that count -/

/-- Whether the thresholds of a detector are what preparing signatures makes them. -/
def Sound (d : Detector) : Prop := ∀ p ∈ d.prepared, p.threshold.isPositive = true

theorem scored_of_qualifies {p : Prepared} (hThreshold : p.threshold.isPositive = true)
    (h : p.qualifies s path sample = true) : (p.found sample).Scored := by
  have hReached : p.threshold.le (p.found sample).score = true := (Bool.and_eq_true_iff.mp h).2
  obtain ⟨hNumber, hNumber'⟩ := Double.ne_nan_of_le hReached
  exact ⟨Match.scoreOf_normal _,
    (Double.isPositive_iff.mp hThreshold).trans_le ((Double.le_iff hNumber hNumber').mp hReached)⟩

theorem detectAll_perm (d : Detector) (s : Scope) (path sample : Text) :
    (d.detectAll s path sample).Perm ((d.qualifying s path sample).map Match.clamped) :=
  List.mergeSort_perm _ _

/-- How the answers about a content stand to each other, and to the signatures that count. -/
structure Ranked (d : Detector) (s : Scope) (path sample : Text) : Prop where
  /-- Each signature that counts makes exactly one of all matches. -/
  once : (d.detectAll s path sample).Perm
    ((d.prepared.filter (·.qualifies s path sample)).map fun p => (p.found sample).clamped)
  ordered : (d.detectAll s path sample).Pairwise Match.Before
  none_iff : d.detect s path sample = none ↔ d.detectAll s path sample = []
  /-- The best match is the first, in the order of the manifest, of those with the highest sum. -/
  earliest : ∃ found, Leads ((d.prepared.filter (·.qualifies s path sample)).map (·.found sample)) found ∧
    d.detect s path sample = found.map Match.clamped
  mem : ∀ b, d.detect s path sample = some b → b ∈ d.detectAll s path sample
  /-- The best match need not be the first of all, but has the same score. -/
  head : ∀ b, d.detect s path sample = some b →
    (d.detectAll s path sample).head?.map (·.score) = some b.score

section Sound

variable (hSound : d.Sound)

include hSound

theorem scored_of_mem_qualifying (h : a ∈ d.qualifying s path sample) : a.Scored := by
  rw [qualifying_eq, List.mem_map] at h
  obtain ⟨p, hMem, rfl⟩ := h
  obtain ⟨hPrepared, hQualifies⟩ := List.mem_filter.mp hMem
  exact scored_of_qualifies (hSound p hPrepared) hQualifies

theorem scored_of_mem_detectAll (h : a ∈ d.detectAll s path sample) : a.Scored := by
  obtain ⟨b, hMem, rfl⟩ := List.mem_map.mp ((List.mergeSort_perm _ _).mem_iff.mp h)
  exact (scored_of_mem_qualifying hSound hMem).clamped

theorem pairwise_detectAll : (d.detectAll s path sample).Pairwise Match.Before :=
  Match.pairwise_mergeSort_le (List.forall_mem_map.mpr fun _ hMem => (scored_of_mem_qualifying hSound hMem).clamped)

theorem leads_qualifying : Leads (d.qualifying s path sample) (best (d.qualifying s path sample)) :=
  leads_best fun _ => scored_of_mem_qualifying hSound

theorem exists_of_detect (h : d.detect s path sample = some b) :
    ∃ a, Leads (d.qualifying s path sample) (some a) ∧ a.clamped = b := by
  obtain ⟨a, hBest, hClamped⟩ := Option.map_eq_some_iff.mp h
  exact ⟨a, hBest ▸ leads_qualifying hSound, hClamped⟩

theorem mem_detectAll_of_detect (h : d.detect s path sample = some b) : b ∈ d.detectAll s path sample := by
  obtain ⟨a, hLead, rfl⟩ := exists_of_detect hSound h
  exact (detectAll_perm d s path sample).mem_iff.mpr (List.mem_map_of_mem (mem_of_leads hLead))

theorem detect_eq_none_iff : d.detect s path sample = none ↔ d.detectAll s path sample = [] := by
  constructor
  · intro hNothing
    have hLead : Leads (d.qualifying s path sample) (best (d.qualifying s path sample)) := leads_qualifying hSound
    rw [Option.map_eq_none_iff.mp hNothing] at hLead
    rw [detectAll, show d.qualifying s path sample = [] from hLead, List.map_nil, List.mergeSort_nil]
  · intro hEmpty
    refine Option.eq_none_iff_forall_ne_some.mpr fun b hFound => ?_
    have hIn := mem_detectAll_of_detect hSound hFound
    rw [hEmpty] at hIn
    cases hIn

/-- No match has a higher score than the best one. -/
theorem place_le_of_detect (h : d.detect s path sample = some b) (hMem : a ∈ d.detectAll s path sample) :
    a.score.place ≤ b.score.place := by
  obtain ⟨best, hLead, rfl⟩ := exists_of_detect hSound h
  obtain ⟨c, hC, rfl⟩ := List.mem_map.mp ((detectAll_perm d s path sample).mem_iff.mp hMem)
  exact Match.place_clamped_le (scored_of_mem_qualifying hSound hC)
    (scored_of_mem_qualifying hSound (mem_of_leads hLead)) (place_le_of_leads hLead hC)

theorem head_of_detect (h : d.detect s path sample = some b) :
    (d.detectAll s path sample).head?.map (·.score) = some b.score := by
  have hMem : b ∈ d.detectAll s path sample := mem_detectAll_of_detect hSound h
  have hOrder : (d.detectAll s path sample).Pairwise Match.Before := pairwise_detectAll hSound
  cases hAll : d.detectAll s path sample with
  | nil =>
      rw [hAll] at hMem
      cases hMem
  | cons a rest =>
      have hHead : a ∈ d.detectAll s path sample := by simp [hAll]
      have hScored := scored_of_mem_detectAll hSound hHead
      have hNotBelow : b.score.place ≤ a.score.place := by
        rw [hAll] at hMem hOrder
        rcases List.mem_cons.mp hMem with rfl | hIn
        · exact le_rfl
        · rcases List.rel_of_pairwise_cons hOrder hIn with hMore | ⟨hSame, -⟩
          · exact hMore.le
          · exact hSame.ge
      have hScore : a.score = b.score := Double.eq_of_place_eq hScored.normal
        (scored_of_mem_detectAll hSound hMem).normal hScored.positive
        ((place_le_of_detect hSound h hHead).antisymm hNotBelow)
      rw [List.head?_cons, Option.map_some, hScore]

theorem ranked_of_sound (s : Scope) (path sample : Text) : d.Ranked s path sample where
  once := by
    have hPerm := detectAll_perm d s path sample
    rwa [qualifying_eq, List.map_map] at hPerm
  ordered := pairwise_detectAll hSound
  none_iff := detect_eq_none_iff hSound
  earliest := ⟨best (d.qualifying s path sample), qualifying_eq d s path sample ▸ leads_qualifying hSound, rfl⟩
  mem _ := mem_detectAll_of_detect hSound
  head _ := head_of_detect hSound

end Sound

/-! ### The order of the manifest -/

theorem ofManifest_iff : ofManifest m = .ok d ↔ ∃ os,
    List.Forall₂ (fun g o => Prepared.ofSignature? g = .ok o) m.signatures os ∧ os.reduceOption = d.prepared := by
  rw [← filterMapM_ok_iff]
  constructor
  · intro h
    obtain ⟨prepared, hPrepared, h⟩ := exists_of_bind_ok h
    obtain rfl := Except.ok.inj h
    exact hPrepared
  · intro h
    rw [ofManifest, bind_of_ok h]
    rfl

theorem sublist_ids {gs : List Signature}
    (h : List.Forall₂ (fun g o => Prepared.ofSignature? g = .ok o) gs os) :
    (os.reduceOption.map (·.signature.id)).Sublist (gs.map (·.id)) := by
  induction h with
  | nil => exact .slnil
  | @cons g o gs os hFirst _ ih =>
      cases o with
      | none =>
          rw [List.reduceOption_cons_of_none]
          exact ih.cons _
      | some p =>
          rw [List.reduceOption_cons_of_some, List.map_cons, List.map_cons,
            (Prepared.prepares_of_ofSignature? hFirst).signature]
          exact ih.cons_cons _

theorem sound_of_ofManifest (h : ofManifest m = .ok d) : d.Sound := by
  obtain ⟨os, hAll, hKept⟩ := ofManifest_iff.mp h
  intro p hMem
  rw [← hKept, List.reduceOption_mem_iff] at hMem
  obtain ⟨g, -, hPrepared⟩ := exists_left_of_forall₂ hAll hMem
  exact (Prepared.prepares_of_ofSignature? hPrepared).threshold

theorem exists_ofManifest_perm (h : ofManifest m = .ok d) (hPerm : m'.signatures.Perm m.signatures) :
    ∃ d', ofManifest m' = .ok d' ∧ d'.prepared.Perm d.prepared := by
  obtain ⟨os, hAll, hKept⟩ := ofManifest_iff.mp h
  obtain ⟨os', hAll', hPerm'⟩ := List.perm_comp_forall₂ hPerm hAll
  refine ⟨⟨os'.reduceOption⟩, ofManifest_iff.mpr ⟨os', hAll', rfl⟩, ?_⟩
  rw [← hKept]
  exact hPerm'.filterMap id

/-- Matches of signatures with different ids are in one order only. -/
theorem detectAll_eq_of_perm (hIds : (d.prepared.map (·.signature.id)).Nodup) (hSound : d.Sound)
    (hSound' : d'.Sound) (hPerm : d'.prepared.Perm d.prepared) (s : Scope) (path sample : Text) :
    d'.detectAll s path sample = d.detectAll s path sample := by
  have hOnce := (ranked_of_sound hSound s path sample).once
  have hMatches : (d'.detectAll s path sample).Perm (d.detectAll s path sample) :=
    ((ranked_of_sound hSound' s path sample).once.trans ((hPerm.filter _).map _)).trans hOnce.symm
  refine hMatches.eq_of_pairwise ?_ (pairwise_detectAll hSound') (pairwise_detectAll hSound)
  intro a b hA hB hFirst hSecond
  have hSame := hFirst.id_eq hSecond
  obtain ⟨p, hP, rfl⟩ := List.mem_map.mp (hOnce.mem_iff.mp (hMatches.mem_iff.mp hA))
  obtain ⟨q, hQ, rfl⟩ := List.mem_map.mp (hOnce.mem_iff.mp hB)
  obtain rfl : p = q := List.inj_on_of_nodup_map hIds (List.mem_filter.mp hP).1 (List.mem_filter.mp hQ).1 hSame
  rfl

/-- A detector holds the signatures with marks to look for in the order of the manifest. Its two answers about a
content agree as far as they can, and if ids are distinct then the order of the manifest has no effect on all matches. -/
theorem ranked_of_ofManifest (h : ofManifest m = .ok d) :
    (∃ os, List.Forall₂ (fun g o => Prepared.ofSignature? g = .ok o) m.signatures os ∧
      os.reduceOption = d.prepared) ∧
    (∀ s path sample, d.Ranked s path sample) ∧
    ((m.signatures.map (·.id)).Nodup → ∀ m' : Manifest, m'.signatures.Perm m.signatures →
      ∃ d', ofManifest m' = .ok d' ∧
        ∀ s path sample, d'.detectAll s path sample = d.detectAll s path sample) := by
  have hSound := sound_of_ofManifest h
  obtain ⟨os, hAll, hKept⟩ := ofManifest_iff.mp h
  refine ⟨⟨os, hAll, hKept⟩, ranked_of_sound hSound, fun hIds m' hPerm => ?_⟩
  obtain ⟨d', hMade, hPrepared⟩ := exists_ofManifest_perm h hPerm
  have hDistinct : (d.prepared.map (·.signature.id)).Nodup := hKept ▸ (sublist_ids hAll).nodup hIds
  exact ⟨d', hMade, detectAll_eq_of_perm hDistinct hSound (sound_of_ofManifest hMade) hPrepared⟩

/-- A signature with some marks of weight one for the same text. -/
def marked (id : Text) (marks : Nat) : Signature :=
  ⟨id, [], [], .zero, [], [], List.replicate marks ⟨"contains", "x", [], Match.one, false⟩, [], []⟩

/-- Three signatures: the second has a sum above one, and those of the others are one. -/
def tied : Manifest := ⟨"", [marked "zeta" 1, marked "beta" 2, marked "alpha" 1]⟩

theorem ranked_of_ofManifest_tied : ∃ d, ofManifest tied = .ok d ∧ (∀ s path sample, d.Ranked s path sample) ∧
    (d.detect {} "f" "x").map (·.signature.id) = some (Text.ofString "beta") ∧
    ∃ d', ofManifest { tied with signatures := tied.signatures.reverse } = .ok d' ∧
      ∀ s path sample, d'.detectAll s path sample = d.detectAll s path sample := by
  obtain ⟨d, hMade⟩ := exists_of_isOk (show (ofManifest tied).isOk = true by decide +kernel)
  obtain ⟨-, hRanked, hOrder⟩ := ranked_of_ofManifest hMade
  have hBest : ((ofManifest tied).toOption.bind (·.detect {} "f" "x")).map (·.signature.id) =
      some (Text.ofString "beta") := by decide +kernel
  rw [hMade] at hBest
  exact ⟨d, hMade, hRanked, hBest, hOrder (by decide +kernel) _ (List.reverse_perm _)⟩

end Detector
end Conform.Signatures
