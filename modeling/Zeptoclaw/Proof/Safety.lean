import Zeptoclaw.Spec.Safety

/-!
# Where the safety scan panics

The scan cuts its text at the offset `max_output_length`, wherever that falls. It panics exactly if the text is longer and
the offset is inside a character (`scanImpl_total_iff`). Nothing behind the cut can panic: the redactions replace at
offsets of matches, from the last to the first (`redactAt_eq`), and every index of the policy set has a rule
(`checkForDirection_total`).
-/

namespace Zeptoclaw.Safety

open Text

variable {lib : SafetyLib}

/-! ## Redaction -/

section Redact

variable {pattern : SecretPattern}

/-- The text of a scan. -/
def pieceText : Regex.Piece Char → Str
  | .keep c => [c]
  | .hit m => m

/-- The text of a scan after the redaction. -/
def pieceRedacted : Regex.Piece Char → Str
  | .keep c => [c]
  | .hit m => LeakDetector.redactString m

theorem pieceText_scan (r : Regex Char) (s : Str) : (r.scan s).flatMap pieceText = s := by
  induction s using Regex.scan_induction r with
  | nil => rfl
  | keep c s hfirst ih =>
    rw [Regex.scan_keep hfirst, List.flatMap_cons, ih]
    rfl
  | hit s n hn ih =>
    rw [Regex.scan_hit hn, List.flatMap_cons, ih]
    exact List.take_append_drop (n + 1) s

theorem replaceRange_append (front m back new : Str) :
    replaceRange (front ++ m ++ back) new (byteLen front) (byteLen front + byteLen m) = some (front ++ new ++ back) := by
  have hstart : splitAtByte (byteLen front) (front ++ m ++ back) = some (front, m ++ back) := by
    rw [List.append_assoc]
    exact splitAtByte_byteLen front (m ++ back)
  have hstop : splitAtByte (byteLen front + byteLen m) (front ++ m ++ back) = some (front ++ m, back) := by
    rw [← byteLen_append]
    exact splitAtByte_byteLen (front ++ m) back
  unfold replaceRange
  rw [hstart, hstop]

theorem filterMap_keep (c : Char) (pieces : List (Regex.Piece Char)) :
    (Regex.Piece.keep c :: pieces).filterMap Regex.Piece.hit? = pieces.filterMap Regex.Piece.hit? := rfl

theorem filterMap_hit (m : Str) (pieces : List (Regex.Piece Char)) :
    (Regex.Piece.hit m :: pieces).filterMap Regex.Piece.hit? = m :: pieces.filterMap Regex.Piece.hit? := rfl

/-- Behind a place where all is done, the matches before it keep their offsets. -/
theorem foldlM_redactSpan (haction : pattern.action = .redact) : ∀ (pieces : List (Regex.Piece Char)) (front back : Str)
    (detections : List LeakDetection),
    (matchSpans (byteLen front) pieces).reverse.foldlM (redactSpan pattern)
      (front ++ pieces.flatMap pieceText ++ back, detections) =
    some (front ++ pieces.flatMap pieceRedacted ++ back,
      detections ++ (pieces.filterMap Regex.Piece.hit?).reverse.map (LeakDetector.detection pattern)) := by
  intro pieces
  induction pieces with
  | nil =>
    intro front back detections
    simp [matchSpans]
  | cons piece pieces ih =>
    intro front back detections
    cases piece with
    | keep c =>
      have hmore := ih (front ++ [c]) back detections
      have hlen : byteLen (front ++ [c]) = byteLen front + c.utf8Size := by simp
      rw [hlen] at hmore
      rw [filterMap_keep]
      simpa [matchSpans, pieceText, pieceRedacted] using hmore
    | hit m =>
      have hmore := ih (front ++ m) back detections
      rw [byteLen_append] at hmore
      have htext : front ++ (Regex.Piece.hit m :: pieces).flatMap pieceText ++ back =
          front ++ m ++ pieces.flatMap pieceText ++ back := by
        rw [List.flatMap_cons, List.append_assoc front m]
        rfl
      rw [matchSpans, List.reverse_cons, List.foldlM_append, htext, hmore]
      have hreplace := replaceRange_append front m (pieces.flatMap pieceRedacted ++ back) (LeakDetector.redactString m)
      rw [← List.append_assoc] at hreplace
      rw [filterMap_hit]
      simp only [Option.bind_eq_bind, Option.bind_some, List.foldlM_cons, List.foldlM_nil, redactSpan, if_pos haction,
        hreplace, Option.map_some, Option.pure_def]
      simp [pieceRedacted]

theorem foldlM_redactSpan_keep (haction : pattern.action ≠ .redact) : ∀ (spans : List (ℕ × ℕ × Str)) (text : Str)
    (detections : List LeakDetection),
    spans.foldlM (redactSpan pattern) (text, detections) =
      some (text, detections ++ spans.map fun span => LeakDetector.detection pattern span.2.2) := by
  intro spans
  induction spans with
  | nil =>
    intro text detections
    simp
  | cons span spans ih =>
    intro text detections
    rw [List.foldlM_cons]
    simp [redactSpan, haction, ih]

theorem matchSpans_texts : ∀ (pieces : List (Regex.Piece Char)) (n : ℕ),
    (matchSpans n pieces).map (fun span => span.2.2) = pieces.filterMap Regex.Piece.hit? := by
  intro pieces
  induction pieces with
  | nil => exact fun n => rfl
  | cons piece pieces ih =>
    intro n
    cases piece with
    | keep c => exact ih (n + c.utf8Size)
    | hit m => exact congrArg (m :: ·) (ih (n + byteLen m))

/-- One pattern: the offsets fit, and the text is that of a replacement of all matches. -/
theorem foldlM_redactPattern (state : Str × List LeakDetection) (pattern : SecretPattern) :
    (matchSpans 0 (pattern.regex.scan state.1)).reverse.foldlM (redactSpan pattern) state =
      some (LeakDetector.redactPattern state pattern) := by
  obtain ⟨text, detections⟩ := state
  by_cases haction : pattern.action = .redact
  · have hfold := foldlM_redactSpan haction (pattern.regex.scan text) [] [] detections
    rw [pieceText_scan] at hfold
    have hreplace : (pattern.regex.scan text).flatMap pieceRedacted =
        pattern.regex.replaceAll LeakDetector.redactString text := by
      unfold Regex.replaceAll
      exact List.flatMap_congr fun piece _ => by cases piece <;> rfl
    rw [List.nil_append, List.append_nil, hreplace] at hfold
    simpa [LeakDetector.redactPattern, haction, Regex.findIter] using hfold
  · rw [foldlM_redactSpan_keep haction, List.map_reverse]
    have htexts := congrArg (List.map (LeakDetector.detection pattern)) (matchSpans_texts (pattern.regex.scan text) 0)
    rw [List.map_map] at htexts
    simp only [LeakDetector.redactPattern, if_neg haction, Regex.findIter, List.map_reverse, ← htexts]
    rfl

/-- A fold whose steps return returns. -/
theorem foldlM_eq_some {α β : Type*} {f : β → α → Option β} {g : β → α → β} (h : ∀ b a, f b a = some (g b a)) :
    ∀ (l : List α) (b : β), l.foldlM f b = some (l.foldl g b) := by
  intro l
  induction l with
  | nil => exact fun b => rfl
  | cons a l ih =>
    intro b
    rw [List.foldlM_cons, h, List.foldl_cons, ← ih]
    rfl

/-- **The redaction never panics.** -/
theorem redactAt_eq (input : Str) : redactAt input = some (LeakDetector.redact input) :=
  foldlM_eq_some foldlM_redactPattern secretPatterns (input, [])

end Redact

/-! ## Policies -/

section Policy

variable {engine : PolicyEngine}

/-- If all elements have a value, filtering by it leaves out none. -/
theorem length_of_mapM {α β γ : Type*} {f : α → Option β} {g : α → β → γ} : ∀ {l : List α} {out : List β},
    l.mapM f = some out → out.length = (l.filterMap fun a => (f a).map (g a)).length := by
  intro l
  induction l with
  | nil =>
    intro out h
    obtain rfl := Option.some.inj h
    rfl
  | cons a l ih =>
    intro out h
    rw [List.mapM_cons] at h
    cases ha : f a with
    | none =>
      rw [ha] at h
      cases h
    | some b =>
      cases hl : l.mapM f with
      | none =>
        rw [ha, hl] at h
        cases h
      | some more =>
        rw [ha, hl] at h
        obtain rfl := Option.some.inj h
        rw [List.filterMap_cons_some (by rw [ha]; rfl), List.length_cons, List.length_cons, ih hl]

/-- Every place of the set has its rule. -/
theorem PolicyEngine.new_lengths (h : PolicyEngine.new lib = some engine) : engine.set.length = engine.rules.length := by
  obtain ⟨set, hset, rfl⟩ := Option.map_eq_some_iff.mp h
  exact length_of_mapM hset

theorem PolicyEngine.checkIndices_total (input : Str) (ignored : List Str) (isOutput : Bool) : ∀ (indices : List ℕ),
    (∀ i ∈ indices, i < engine.rules.length) → ∃ violations, engine.checkIndices input ignored isOutput indices = some violations := by
  intro indices
  induction indices with
  | nil => exact fun _ => ⟨[], rfl⟩
  | cons i indices ih =>
    intro h
    obtain ⟨violations, hrest⟩ := ih fun j hj => h j (List.mem_cons_of_mem i hj)
    have hrule := List.getElem?_eq_getElem (h i List.mem_cons_self)
    rw [PolicyEngine.checkIndices, hrule, hrest]
    simp only [Option.bind_eq_bind, Option.bind_some]
    split
    · exact ⟨_, rfl⟩
    · split
      · exact ⟨_, rfl⟩
      · exact ⟨_, rfl⟩

/-- **The policies never panic.** -/
theorem PolicyEngine.checkForDirection_total (h : PolicyEngine.new lib = some engine) (input : Str) (ignored : List Str)
    (isOutput : Bool) : ∃ violations, engine.checkForDirection input ignored isOutput = some violations := by
  refine PolicyEngine.checkIndices_total input ignored isOutput _ fun i hi => ?_
  have hrange := List.mem_range.mp (List.mem_filter.mp hi).1
  rwa [← PolicyEngine.new_lengths h]

end Policy

/-! ## The scan -/

section Scan

variable {config : SafetyConfig} {layer : Layer} {text content : Str} {warnings ignored : List Str} {wasModified : Bool}
  {direction : CheckDirection}

theorem Layer.new_eq (h : Layer.new lib config = some layer) :
    layer.config = config ∧ PolicyEngine.new lib = some layer.policyEngine := by
  obtain ⟨engine, hengine, rfl⟩ := Option.map_eq_some_iff.mp h
  exact ⟨rfl, hengine⟩

theorem leakStep_total (layer : Layer) (content : Str) (warnings : List Str) (wasModified : Bool) :
    ∃ progress, layer.leakStep content warnings wasModified = some progress := by
  unfold Layer.leakStep
  split
  · dsimp only
    split
    · exact ⟨_, rfl⟩
    · split
      · rw [redactAt_eq]
        exact ⟨_, rfl⟩
      · exact ⟨_, rfl⟩
  · exact ⟨_, rfl⟩

theorem policyStep_total (h : PolicyEngine.new lib = some layer.policyEngine) (direction : CheckDirection)
    (ignored : List Str) (content : Str) (warnings : List Str) (wasModified : Bool) :
    ∃ progress, layer.policyStep direction ignored content warnings wasModified = some progress := by
  obtain ⟨violations, hcheck⟩ := PolicyEngine.checkForDirection_total h content ignored (decide (direction = .output))
  unfold Layer.policyStep
  rw [hcheck]
  exact ⟨_, rfl⟩

/-- **Behind the truncation the scan returns.** -/
theorem examine_total (h : PolicyEngine.new lib = some layer.policyEngine) (direction : CheckDirection)
    (ignored : List Str) (content : Str) (warnings : List Str) (wasModified : Bool) :
    ∃ result, layer.examine lib direction ignored content warnings wasModified = some result := by
  unfold Layer.examine
  cases Layer.validateStep lib content warnings wasModified with
  | done result => exact ⟨result, rfl⟩
  | next content warnings wasModified =>
    obtain ⟨progress, hleak⟩ := leakStep_total layer content warnings wasModified
    dsimp only
    rw [hleak, Option.bind_eq_bind, Option.bind_some]
    cases progress with
    | done result => exact ⟨result, rfl⟩
    | next content warnings wasModified =>
      obtain ⟨progress, hpolicy⟩ := policyStep_total h direction ignored content warnings wasModified
      dsimp only
      rw [hpolicy, Option.bind_some]
      cases progress with
      | done result => exact ⟨result, rfl⟩
      | next content warnings wasModified => exact ⟨_, rfl⟩

/-- The scan returns if the truncation does. -/
theorem scanImpl_total (h : PolicyEngine.new lib = some layer.policyEngine) (hcut : layer.truncate text = some content) :
    ∃ result, layer.scanImpl lib text direction ignored = some result := by
  unfold Layer.scanImpl
  rw [hcut, Option.bind_eq_bind, Option.bind_some]
  split
  · exact examine_total h _ _ _ _ _
  · exact examine_total h _ _ _ _ _

theorem scanImpl_eq_none (hcut : layer.truncate text = none) : layer.scanImpl lib text direction ignored = none := by
  unfold Layer.scanImpl
  rw [hcut]
  rfl

/-- What is examined is a prefix that ends between characters, within the limit. -/
theorem truncate_spec (hcut : layer.truncate text = some content) :
    content <+: text ∧ byteLen content ≤ layer.config.maxOutputLength := by
  unfold Layer.truncate at hcut
  by_cases hlong : layer.config.maxOutputLength < byteLen text
  · rw [if_pos hlong] at hcut
    obtain ⟨⟨front, back⟩, hsplit, rfl⟩ := Option.map_eq_some_iff.mp hcut
    obtain ⟨rfl, hlen⟩ := splitAtByte_eq_some.mp hsplit
    exact ⟨List.prefix_append front back, hlen.le⟩
  · rw [if_neg hlong] at hcut
    obtain rfl := Option.some.inj hcut
    exact ⟨List.prefix_rfl, by omega⟩

theorem truncate_isSome_iff (layer : Layer) (text : Str) : (∃ content, layer.truncate text = some content) ↔
    byteLen text ≤ layer.config.maxOutputLength ∨ isCharBoundary text layer.config.maxOutputLength = true := by
  unfold Layer.truncate isCharBoundary
  by_cases hlong : layer.config.maxOutputLength < byteLen text
  · rw [if_pos hlong, ← Option.isSome_iff_exists, Option.isSome_map]
    exact ⟨.inr, fun h => h.resolve_left (by omega)⟩
  · rw [if_neg hlong]
    exact ⟨fun _ => .inl (by omega), fun _ => ⟨text, rfl⟩⟩

/-- The scan returns, and the text that it examines is a prefix within the limit. -/
def ScansSafely (lib : SafetyLib) (layer : Layer) (text : Str) (direction : CheckDirection) (ignored : List Str) : Prop :=
  (∃ result, layer.scanImpl lib text direction ignored = some result) ∧
    ∃ content, layer.truncate text = some content ∧ content <+: text ∧
      byteLen content ≤ layer.config.maxOutputLength

/-- **The scan is safe exactly for a text within the limit or with a character boundary at the limit.** -/
theorem scanImpl_total_iff (h : Layer.new lib config = some layer) (text : Str) (direction : CheckDirection)
    (ignored : List Str) : ScansSafely lib layer text direction ignored ↔
      byteLen text ≤ config.maxOutputLength ∨ isCharBoundary text config.maxOutputLength = true := by
  obtain ⟨rfl, hengine⟩ := Layer.new_eq h
  rw [← truncate_isSome_iff]
  constructor
  · rintro ⟨-, content, hcut, -⟩
    exact ⟨content, hcut⟩
  · rintro ⟨content, hcut⟩
    exact ⟨scanImpl_total hengine hcut, content, hcut, truncate_spec hcut⟩

/-- A library in whose texts no policy matches. -/
def quietLib : SafetyLib where
  compile _ := some fun _ => none
  whitespaceWarning _ _ := none
  debugChar c := ['\'', c, '\'']
  debugBytes _ := ['[', ']']

/-- A layer with a limit of two bytes. -/
def tightLayer : Layer :=
  ⟨⟨true, true, 2⟩, ⟨ruleDefs.map fun _ _ => none, ruleDefs.map fun d =>
    ⟨d.name, d.severity, d.action, d.description, d.scope, fun _ => none⟩⟩⟩

theorem tightLayer_new : Layer.new quietLib ⟨true, true, 2⟩ = some tightLayer := rfl

theorem scanImpl_total_ascii : ScansSafely quietLib tightLayer "abc".toList .output [] ↔
    byteLen "abc".toList ≤ 2 ∨ isCharBoundary "abc".toList 2 = true :=
  scanImpl_total_iff tightLayer_new "abc".toList .output []

/-- A character of two bytes across the limit. -/
theorem scanImpl_panics : Layer.new quietLib ⟨true, true, 2⟩ = some tightLayer ∧
    tightLayer.scanImpl quietLib "aé".toList .output [] = none ∧
    ¬ ScansSafely quietLib tightLayer "aé".toList .output [] := by
  have hpanic : tightLayer.scanImpl quietLib "aé".toList .output [] = none := scanImpl_eq_none (by decide)
  refine ⟨tightLayer_new, hpanic, ?_⟩
  rintro ⟨⟨result, hresult⟩, -⟩
  rw [hpanic] at hresult
  cases hresult

end Scan

end Zeptoclaw.Safety
