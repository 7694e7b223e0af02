import Zeptoclaw.Lib.Substitution
import Zeptoclaw.Spec.Skills

/-!
# Skills that are always on

The list has the names of the directories, and what is always on is loaded by the names in the
frontmatters. `alwaysOn_reaches_iff`: whatever the bodies of the skills are, the contents of those
that are always on reach the prompt exactly if each of their files is also loaded by one of the
names that are put into it.
-/

namespace Zeptoclaw

open Text

/-- A skill of the list that is always on and is not disabled. -/
structure AlwaysOn (lib : SkillsLib) (env : SkillsEnv) (fs : SkillFs) (loader : SkillsLoader) (config : SkillsConfig)
    (name : Str) (skill : Skill) : Prop where
  listed : name ∈ listSkills lib env fs loader false
  loads : loadSkill lib fs loader name = some skill
  always : (getZeptometa lib skill).always = true
  enabled : isDisabled config name = false

/-- The prompt has the contents of all skills that are always on. -/
def AlwaysReaches (lib : SkillsLib) (env : SkillsEnv) (fs : SkillFs) (loader : SkillsLoader) (config : SkillsConfig) : Prop :=
  ∀ name skill, AlwaysOn lib env fs loader config name skill →
    skill.content <:+: buildSkillsPrompt lib env fs loader config

/-- The same directories, and files with the same frontmatters; the bodies may differ. -/
structure SameFrontmatter (lib : SkillsLib) (fs fs' : SkillFs) : Prop where
  readDir : fs'.readDir = fs.readDir
  isFile : fs'.isFile = fs.isFile
  frontmatter : ∀ path, (fs'.readToString path).map (fun raw => (parseFrontmatter lib raw).1) =
    (fs.readToString path).map fun raw => (parseFrontmatter lib raw).1

/-- A frontmatter name of a skill that is always on, or a name of `always_load`, that is not disabled, is looked up at
the path. -/
def NamedFor (lib : SkillsLib) (env : SkillsEnv) (fs : SkillFs) (loader : SkillsLoader) (config : SkillsConfig)
    (path : Str) : Prop :=
  ∃ name, (name ∈ getAlwaysSkills lib env fs loader ∨ name ∈ config.alwaysLoad) ∧ isDisabled config name = false ∧
    skillFile fs loader name = some path

/-! ## Names -/

theorem mem_dedupAdjacent {a : Str} : ∀ {names : List Str}, a ∈ dedupAdjacent names ↔ a ∈ names
  | [] => Iff.rfl
  | [_] => Iff.rfl
  | b :: c :: names => by
    rw [dedupAdjacent]
    split
    · rename_i heq
      rw [mem_dedupAdjacent, heq]
      simp
    · rw [List.mem_cons, mem_dedupAdjacent, List.mem_cons (a := a) (b := b)]

section Loading

variable {lib : SkillsLib} {env : SkillsEnv} {fs fs' : SkillFs} {loader : SkillsLoader} {config : SkillsConfig}
  {name path : Str} {skill : Skill}

theorem mem_alwaysNames : name ∈ alwaysNames lib env fs loader config ↔
    (name ∈ getAlwaysSkills lib env fs loader ∨ name ∈ config.alwaysLoad) ∧ isDisabled config name = false ∧
      (loadSkill lib fs loader name).isSome = true := by
  unfold alwaysNames sortNames
  rw [List.mem_filter, List.mem_filter, mem_dedupAdjacent, List.mem_mergeSort, List.mem_append, Bool.not_eq_true', and_assoc]

/-! ## Loading -/

/-- What a file that can be read gives. -/
theorem parseSkillFile_of_read (lib : SkillsLib) {raw : Str} (h : fs.readToString path = some raw) (name : Str) :
    ∃ skill, parseSkillFile lib fs path name = some skill ∧ skill.path = path ∧
      skill.metadata = (parseFrontmatter lib raw).1 ∧
      skill.content = replace (parseFrontmatter lib raw).2 "\x7bbaseDir\x7d".toList (parentDir path) := by
  unfold parseSkillFile
  rw [h]
  exact ⟨_, rfl, rfl, rfl, rfl⟩

theorem read_of_parseSkillFile (h : parseSkillFile lib fs path name = some skill) :
    ∃ raw, fs.readToString path = some raw := by
  obtain ⟨raw, hraw, -⟩ := Option.map_eq_some_iff.mp h
  exact ⟨raw, hraw⟩

/-- A skill is loaded from its file. -/
theorem loadSkill_eq_some (h : loadSkill lib fs loader name = some skill) :
    skillFile fs loader name = some skill.path ∧ parseSkillFile lib fs skill.path name = some skill := by
  obtain ⟨path, hfile, hparse⟩ := Option.bind_eq_some_iff.mp h
  obtain ⟨raw, hraw⟩ := read_of_parseSkillFile hparse
  obtain ⟨skill', hparse', hpath, -⟩ := parseSkillFile_of_read lib hraw name
  obtain rfl := Option.some.inj (hparse.symm.trans hparse')
  rw [hpath]
  exact ⟨hfile, hparse⟩

/-- The content of a file does not depend on the name by which it is loaded. -/
theorem parseSkillFile_content (h : parseSkillFile lib fs path name = some skill) (name' : Str) :
    ∃ skill', parseSkillFile lib fs path name' = some skill' ∧ skill'.content = skill.content := by
  obtain ⟨raw, hraw⟩ := read_of_parseSkillFile h
  obtain ⟨skill₁, hparse₁, -, -, hcontent₁⟩ := parseSkillFile_of_read lib hraw name
  obtain ⟨skill₂, hparse₂, -, -, hcontent₂⟩ := parseSkillFile_of_read lib hraw name'
  obtain rfl := Option.some.inj (h.symm.trans hparse₁)
  exact ⟨skill₂, hparse₂, hcontent₂.trans hcontent₁.symm⟩

/-! ## The prompt has what is loaded by its names -/

theorem contextPart_infix_context {names : List Str} (hname : name ∈ names) (h : loadSkill lib fs loader name = some skill) :
    contextPart lib skill <:+: loadSkillsForContext lib fs loader names :=
  infix_intercalate (List.mem_filterMap.mpr ⟨name, hname, by rw [h]; rfl⟩)

theorem content_infix_context {names : List Str} (hname : name ∈ names) (h : loadSkill lib fs loader name = some skill) :
    skill.content <:+: loadSkillsForContext lib fs loader names :=
  (List.suffix_append _ _).isInfix.trans (contextPart_infix_context hname h)

/-- The heading of a part is not empty. -/
theorem context_ne_nil {names : List Str} (hname : name ∈ names) (h : loadSkill lib fs loader name = some skill) :
    loadSkillsForContext lib fs loader names ≠ [] := by
  intro hnil
  have hin := contextPart_infix_context hname h
  rw [hnil, List.infix_nil] at hin
  exact absurd hin (by unfold contextPart; simp)

theorem context_infix_prompt (henabled : config.enabled = true) {listed : Str}
    (hlisted : listed ∈ listSkills lib env fs loader false) (hvisible : isDisabled config listed = false)
    (hname : name ∈ alwaysNames lib env fs loader config) (h : loadSkill lib fs loader name = some skill) :
    loadSkillsForContext lib fs loader (alwaysNames lib env fs loader config) <:+:
      buildSkillsPrompt lib env fs loader config := by
  have hmem : listed ∈ (listSkills lib env fs loader false).filter fun n => !isDisabled config n :=
    List.mem_filter.mpr ⟨hlisted, by rw [hvisible]; rfl⟩
  unfold buildSkillsPrompt
  rw [henabled]
  dsimp only [Bool.not_true]
  rw [if_neg (by exact Bool.false_ne_true), if_neg (List.ne_nil_of_mem hmem), if_neg (List.ne_nil_of_mem hname),
    if_neg (context_ne_nil hname h)]
  exact (List.suffix_append _ _).isInfix

/-- A skill whose file is loaded by one of the names reaches the prompt. -/
theorem AlwaysOn.reaches (henabled : config.enabled = true) (h : AlwaysOn lib env fs loader config name skill)
    (hnamed : NamedFor lib env fs loader config skill.path) :
    skill.content <:+: buildSkillsPrompt lib env fs loader config := by
  obtain ⟨name', hname, hdisabled, hfile⟩ := hnamed
  obtain ⟨-, hparse⟩ := loadSkill_eq_some h.loads
  obtain ⟨skill', hparse', hcontent⟩ := parseSkillFile_content hparse name'
  have hload : loadSkill lib fs loader name' = some skill' := by
    rw [loadSkill, hfile]
    exact hparse'
  have hmem : name' ∈ alwaysNames lib env fs loader config :=
    mem_alwaysNames.mpr ⟨hname, hdisabled, by rw [hload]; rfl⟩
  rw [← hcontent]
  exact (content_infix_context hmem hload).trans (context_infix_prompt henabled h.listed h.enabled hmem hload)

/-- Where the two names of a skill are the same, it is named. -/
theorem AlwaysOn.namedFor (h : AlwaysOn lib env fs loader config name skill) (hname : skill.name = name) :
    NamedFor lib env fs loader config skill.path := by
  refine ⟨name, .inl ?_, h.enabled, (loadSkill_eq_some h.loads).1⟩
  have hloaded : skill ∈ (listSkills lib env fs loader false).filterMap (loadSkill lib fs loader) :=
    List.mem_filterMap.mpr ⟨name, h.listed, h.loads⟩
  exact List.mem_map.mpr ⟨skill, List.mem_filter.mpr ⟨hloaded, h.always⟩, hname⟩

/-! ## What does not depend on the bodies -/

/-- The skill without its body. -/
def Skill.head (skill : Skill) : Skill := { skill with content := [] }

theorem SameFrontmatter.skillFile_eq (h : SameFrontmatter lib fs fs') (name : Str) :
    skillFile fs' loader name = skillFile fs loader name := by
  unfold skillFile
  rw [h.isFile]

theorem SameFrontmatter.head (h : SameFrontmatter lib fs fs') (loader : SkillsLoader) (name : Str) :
    (loadSkill lib fs' loader name).map Skill.head = (loadSkill lib fs loader name).map Skill.head := by
  unfold loadSkill
  rw [h.skillFile_eq]
  cases skillFile fs loader name with
  | none => rfl
  | some path =>
    have hfront := h.frontmatter path
    rw [Option.bind_some, Option.bind_some, parseSkillFile, parseSkillFile]
    cases hraw : fs.readToString path with
    | none =>
      rw [hraw, Option.map_none, Option.map_eq_none_iff] at hfront
      rw [hfront]
    | some raw =>
      rw [hraw, Option.map_some, Option.map_eq_some_iff] at hfront
      obtain ⟨raw', hraw', hmeta⟩ := hfront
      rw [hraw']
      simp only [Option.map_some, Skill.head, hmeta]

theorem SameFrontmatter.isSome (h : SameFrontmatter lib fs fs') (name : Str) :
    (loadSkill lib fs' loader name).isSome = (loadSkill lib fs loader name).isSome := by
  have hhead := congrArg Option.isSome (h.head loader name)
  rwa [Option.isSome_map, Option.isSome_map] at hhead

theorem SameFrontmatter.listSkills_eq (h : SameFrontmatter lib fs fs') :
    listSkills lib env fs' loader false = listSkills lib env fs loader false := by
  unfold listSkills collectSkillInfos
  rw [h.readDir]
  rfl

theorem SameFrontmatter.checkRequirements_eq (h : SameFrontmatter lib fs fs') (skill : Skill) :
    checkRequirements lib env fs' loader skill = checkRequirements lib env fs loader skill := by
  have hloads : (fun dep => (loadSkill lib fs' loader dep).isSome) = fun dep => (loadSkill lib fs loader dep).isSome :=
    funext h.isSome
  have hbin : binaryInPath env fs' = binaryInPath env fs := by
    unfold binaryInPath
    rw [h.isFile]
  unfold checkRequirements
  rw [hloads, hbin]

/-- The loaded skills are the same up to their bodies. -/
theorem SameFrontmatter.heads (h : SameFrontmatter lib fs fs') (names : List Str) :
    (names.filterMap (loadSkill lib fs' loader)).map Skill.head =
      (names.filterMap (loadSkill lib fs loader)).map Skill.head := by
  rw [List.map_filterMap, List.map_filterMap]
  exact List.filterMap_congr fun name _ => h.head loader name

theorem SameFrontmatter.getAlwaysSkills_eq (h : SameFrontmatter lib fs fs') :
    getAlwaysSkills lib env fs' loader = getAlwaysSkills lib env fs loader := by
  -- whether a skill is always on, and its name, are the same without its body
  have hview : ∀ skills : List Skill, (skills.filter fun skill => (getZeptometa lib skill).always).map Skill.name =
      ((skills.map Skill.head).filter fun skill => (getZeptometa lib skill).always).map Skill.name := by
    intro skills
    rw [List.filter_map, List.map_map]
    rfl
  unfold getAlwaysSkills
  rw [hview, h.listSkills_eq, h.heads, ← hview]

theorem SameFrontmatter.summary (h : SameFrontmatter lib fs fs') (names : List Str) :
    (names.filterMap (loadSkill lib fs' loader)).flatMap (summaryLines lib env fs' loader) =
      (names.filterMap (loadSkill lib fs loader)).flatMap (summaryLines lib env fs loader) := by
  have hlines : summaryLines lib env fs' loader = summaryLines lib env fs loader := by
    funext skill
    unfold summaryLines
    rw [h.checkRequirements_eq]
  have hview : ∀ skills : List Skill, skills.flatMap (summaryLines lib env fs loader) =
      (skills.map Skill.head).flatMap (summaryLines lib env fs loader) := by
    intro skills
    rw [List.flatMap_map]
    rfl
  rw [hlines, hview, h.heads, ← hview]

theorem SameFrontmatter.alwaysNames_eq (h : SameFrontmatter lib fs fs') :
    alwaysNames lib env fs' loader config = alwaysNames lib env fs loader config := by
  have hloads : (fun name => (loadSkill lib fs' loader name).isSome) = fun name => (loadSkill lib fs loader name).isSome :=
    funext h.isSome
  unfold alwaysNames
  rw [h.getAlwaysSkills_eq, hloads]

/-- The prompt is the same if the bodies that it loads are. -/
theorem SameFrontmatter.prompt (h : SameFrontmatter lib fs fs')
    (hbodies : ∀ name ∈ alwaysNames lib env fs loader config,
      loadSkill lib fs' loader name = loadSkill lib fs loader name) :
    buildSkillsPrompt lib env fs' loader config = buildSkillsPrompt lib env fs loader config := by
  have hcontext : loadSkillsForContext lib fs' loader (alwaysNames lib env fs loader config) =
      loadSkillsForContext lib fs loader (alwaysNames lib env fs loader config) := by
    unfold loadSkillsForContext
    rw [List.filterMap_congr fun name hname => congrArg (Option.map (contextPart lib)) (hbodies name hname)]
  unfold buildSkillsPrompt
  rw [h.listSkills_eq, h.alwaysNames_eq]
  dsimp only
  rw [hcontext, h.summary]

theorem SameFrontmatter.symm (h : SameFrontmatter lib fs fs') : SameFrontmatter lib fs' fs :=
  ⟨h.readDir.symm, h.isFile.symm, fun path => (h.frontmatter path).symm⟩

/-- Whether a skill is always on does not depend on its body. -/
theorem AlwaysOn.same (h : SameFrontmatter lib fs fs') (hon : AlwaysOn lib env fs loader config name skill) :
    ∃ skill', AlwaysOn lib env fs' loader config name skill' ∧ skill'.head = skill.head := by
  have hhead := h.head loader name
  rw [hon.loads, Option.map_some] at hhead
  obtain ⟨skill', hload', hsame⟩ := Option.map_eq_some_iff.mp hhead
  refine ⟨skill', ⟨by rw [h.listSkills_eq]; exact hon.listed, hload', ?_, hon.enabled⟩, hsame⟩
  have halways : (getZeptometa lib skill'.head).always = (getZeptometa lib skill.head).always := by rw [hsame]
  exact halways.trans hon.always

theorem NamedFor.same (h : SameFrontmatter lib fs fs') (hnamed : NamedFor lib env fs loader config path) :
    NamedFor lib env fs' loader config path := by
  obtain ⟨name, hname, hdisabled, hfile⟩ := hnamed
  exact ⟨name, by rw [h.getAlwaysSkills_eq]; exact hname, hdisabled, by rw [h.skillFile_eq]; exact hfile⟩

/-! ## Another body -/

/-- The file system with another text in a file. -/
def SkillFs.write (fs : SkillFs) (path raw : Str) : SkillFs :=
  { fs with readToString := fun p => if p = path then some raw else fs.readToString p }

/-- A file with something in its frontmatter has the two lines of dashes. -/
theorem frontmatter_of_metadata {raw : Str} (h : (parseFrontmatter lib raw).1.metadata ≠ none) :
    ∃ frontmatter rest, cutFirst "\n---".toList (raw.drop 4) = some (frontmatter, rest) ∧
      (parseFrontmatter lib raw).1 = parseFrontmatterMetadata lib frontmatter := by
  unfold parseFrontmatter at h ⊢
  by_cases hpre : "---\n".toList <+: raw
  · rw [if_pos hpre] at h ⊢
    cases hcut : cutFirst "\n---".toList (raw.drop 4) with
    | none =>
      rw [hcut] at h
      exact absurd rfl h
    | some cut => exact ⟨cut.1, cut.2, rfl, rfl⟩
  · rw [if_neg hpre] at h
    exact absurd rfl h

theorem trim_replicate (n : ℕ) : trim (List.replicate n 'x') = List.replicate n 'x' := by
  cases n with
  | zero => rfl
  | succ n =>
    have hx : ¬ isWhitespace 'x' = true := by decide
    have hstart : trimStart (List.replicate (n + 1) 'x') = List.replicate (n + 1) 'x' := by
      rw [List.replicate_succ, trimStart, List.dropWhile_cons_of_neg hx]
    rw [trim, hstart, List.replicate_succ', trimEnd, List.rdropWhile_concat_neg _ _ _ hx]

/-- It keeps the frontmatter under any other body. -/
theorem exists_body {raw : Str} (h : (parseFrontmatter lib raw).1.metadata ≠ none) (n : ℕ) :
    ∃ raw', parseFrontmatter lib raw' = ((parseFrontmatter lib raw).1, List.replicate n 'x') := by
  obtain ⟨frontmatter, rest, hcut, hmeta⟩ := frontmatter_of_metadata h
  refine ⟨"---\n".toList ++ (frontmatter ++ "\n---".toList ++ List.replicate n 'x'), ?_⟩
  have hdrop : ("---\n".toList ++ (frontmatter ++ "\n---".toList ++ List.replicate n 'x')).drop 4 =
      frontmatter ++ "\n---".toList ++ List.replicate n 'x' := rfl
  have hcut' : cutFirst "\n---".toList (frontmatter ++ "\n---".toList ++ List.replicate n 'x') =
      some (frontmatter, List.replicate n 'x') := cutFirst_change (d := '\n') (p := "---".toList) hcut _
  rw [hmeta, parseFrontmatter, if_pos (List.prefix_append _ _), hdrop, hcut']
  dsimp only
  rw [trim_replicate]

/-- A skill that is always on has something in its frontmatter. -/
theorem metadata_ne_none (h : (getZeptometa lib skill).always = true) : skill.metadata.metadata ≠ none := by
  intro hnone
  unfold getZeptometa at h
  rw [hnone] at h
  exact Bool.false_ne_true h

theorem sameFrontmatter_write {raw raw' : Str} (hraw : fs.readToString path = some raw)
    (hmeta : (parseFrontmatter lib raw').1 = (parseFrontmatter lib raw).1) : SameFrontmatter lib fs (fs.write path raw') := by
  refine ⟨rfl, rfl, fun p => ?_⟩
  unfold SkillFs.write
  dsimp only
  split
  · rename_i hpath
    rw [hpath, hraw, Option.map_some, Option.map_some, hmeta]
  · rfl

/-- A skill that is loaded from the file has the new body. -/
theorem content_write {raw : Str} (h : loadSkill lib (fs.write path raw) loader name = some skill) (hpath : skill.path = path) :
    skill.content = replace (parseFrontmatter lib raw).2 "\x7bbaseDir\x7d".toList (parentDir skill.path) := by
  obtain ⟨-, hparse⟩ := loadSkill_eq_some h
  have hread : (fs.write path raw).readToString skill.path = some raw := if_pos hpath
  obtain ⟨skill', hparse', -, -, hbody⟩ := parseSkillFile_of_read lib hread name
  obtain rfl := Option.some.inj (hparse.symm.trans hparse')
  exact hbody

/-- The prompt does not load a file without a name. -/
theorem prompt_write {raw : Str} (hsame : SameFrontmatter lib fs (fs.write path raw))
    (hunnamed : ¬ NamedFor lib env fs loader config path) :
    buildSkillsPrompt lib env (fs.write path raw) loader config = buildSkillsPrompt lib env fs loader config := by
  refine hsame.prompt fun name hmem => ?_
  obtain ⟨hname, hdisabled, -⟩ := mem_alwaysNames.mp hmem
  unfold loadSkill
  rw [hsame.skillFile_eq]
  cases hfile : skillFile fs loader name with
  | none => rfl
  | some other =>
    have hne : other ≠ path := by
      rintro rfl
      exact hunnamed ⟨name, hname, hdisabled, hfile⟩
    have hread : (fs.write path raw).readToString other = fs.readToString other := if_neg hne
    rw [Option.bind_some, Option.bind_some, parseSkillFile, parseSkillFile, hread]

/-- Without a name for its file, another body of the skill does not reach the prompt. -/
theorem AlwaysOn.not_reaches (hon : AlwaysOn lib env fs loader config name skill)
    (hunnamed : ¬ NamedFor lib env fs loader config skill.path) :
    ∃ fs', SameFrontmatter lib fs fs' ∧ ¬ AlwaysReaches lib env fs' loader config := by
  obtain ⟨-, hparse⟩ := loadSkill_eq_some hon.loads
  obtain ⟨raw, hraw⟩ := read_of_parseSkillFile hparse
  obtain ⟨skill₁, hparse₁, -, hmeta, -⟩ := parseSkillFile_of_read lib hraw name
  obtain rfl := Option.some.inj (hparse.symm.trans hparse₁)
  -- the new body is longer than the prompt
  obtain ⟨raw', hraw'⟩ := exists_body (hmeta ▸ metadata_ne_none hon.always)
    ((buildSkillsPrompt lib env fs loader config).length + 1)
  have hsame : SameFrontmatter lib fs (fs.write skill.path raw') := sameFrontmatter_write hraw (by rw [hraw'])
  refine ⟨fs.write skill.path raw', hsame, fun hreaches => ?_⟩
  obtain ⟨skill', hon', hhead⟩ := hon.same hsame
  have hpath : skill'.head.path = skill.head.path := by rw [hhead]
  have hcontent : skill'.content = List.replicate ((buildSkillsPrompt lib env fs loader config).length + 1) 'x' := by
    rw [content_write hon'.loads hpath, hraw']
    refine replace_of_absent _ fun hin => ?_
    exact absurd (List.eq_of_mem_replicate (hin.mem (List.mem_cons_self (a := '\x7b')))) (by decide)
  have hin := hreaches name skill' hon'
  rw [hcontent, prompt_write hsame hunnamed] at hin
  have hlen := hin.length_le
  rw [List.length_replicate] at hlen
  omega

/-- **Skills that are always on.** Their texts reach the prompt whatever stands behind the frontmatters, exactly if a
name that is asked for is looked up at the path of each. -/
theorem alwaysOn_reaches_iff (henabled : config.enabled = true) :
    (∀ fs', SameFrontmatter lib fs fs' → AlwaysReaches lib env fs' loader config) ↔
      ∀ name skill, AlwaysOn lib env fs loader config name skill → NamedFor lib env fs loader config skill.path := by
  constructor
  · intro hall name skill hon
    by_contra hunnamed
    obtain ⟨fs', hsame, hnot⟩ := hon.not_reaches hunnamed
    exact hnot (hall fs' hsame)
  · intro hnamed fs' hsame name skill' hon'
    obtain ⟨skill, hon, hhead⟩ := hon'.same hsame.symm
    have hpath : skill.head.path = skill'.head.path := by rw [hhead]
    have hnamed' : NamedFor lib env fs loader config skill'.head.path := hpath ▸ hnamed name skill hon
    exact hon'.reaches henabled (hnamed'.same hsame)

end Loading

/-! ## A skill in a directory -/

/-- The frontmatter of the skill `weather`, as it is read. -/
def weatherLib : SkillsLib where
  fromYaml s := if s = "name: weather\nmetadata: \x7balways: true\x7d".toList then
    some { name := "weather".toList, metadata := some (.object [("always".toList, .bool true)]) } else none
  fromValue value := some { always := match value.get "always".toList with | some (.bool b) => b | _ => false }

def weatherEnv : SkillsEnv := ⟨"linux".toList, none, fun _ => false⟩

/-- The skill in the directory of the name. -/
def weatherFs (dir : Str) : SkillFs where
  readDir path := if path = "ws".toList then some [⟨dir, true, true⟩] else none
  isFile path := path = "ws/".toList ++ dir ++ "/SKILL.md".toList
  readToString path := if path = "ws/".toList ++ dir ++ "/SKILL.md".toList then
    some "---\nname: weather\nmetadata: \x7balways: true\x7d\n---\nUse wttr.in.".toList else none

def weatherLoader : SkillsLoader := ⟨"ws".toList, "skills".toList⟩

theorem listSkills_weather (dir : Str) : listSkills weatherLib weatherEnv (weatherFs dir) weatherLoader false = [dir] := by
  unfold listSkills sortNames
  have hcollect : collectSkillInfos (weatherFs dir) weatherLoader.builtinDir
      (collectSkillInfos (weatherFs dir) weatherLoader.workspaceDir []) = [dir] := rfl
  rw [hcollect]
  exact List.mergeSort_singleton dir

theorem alwaysOn_reaches_iff_weather :
    AlwaysReaches weatherLib weatherEnv (weatherFs "weather".toList) weatherLoader ⟨true, [], []⟩ := by
  refine (alwaysOn_reaches_iff rfl).mpr (fun name skill hon => hon.namedFor ?_) _ ⟨rfl, rfl, fun _ => rfl⟩
  have hlisted := hon.listed
  rw [listSkills_weather, List.mem_singleton] at hlisted
  subst hlisted
  have hname : (loadSkill weatherLib (weatherFs "weather".toList) weatherLoader "weather".toList).map Skill.name =
      some "weather".toList := by decide
  rw [hon.loads] at hname
  exact Option.some.inj hname

set_option maxRecDepth 4000 in
/-- The directory has another name than the skill. -/
theorem alwaysOn_dropped :
    ¬ AlwaysReaches weatherLib weatherEnv (weatherFs "weather-dir".toList) weatherLoader ⟨true, [], []⟩ := by
  intro hreaches
  have hlist := listSkills_weather "weather-dir".toList
  have halways : getAlwaysSkills weatherLib weatherEnv (weatherFs "weather-dir".toList) weatherLoader = ["weather".toList] := by
    unfold getAlwaysSkills
    rw [hlist]
    decide
  have hnames : alwaysNames weatherLib weatherEnv (weatherFs "weather-dir".toList) weatherLoader ⟨true, [], []⟩ = [] := by
    unfold alwaysNames sortNames
    rw [halways, List.append_nil, List.mergeSort_singleton]
    decide
  have hload : (loadSkill weatherLib (weatherFs "weather-dir".toList) weatherLoader "weather-dir".toList).map
      (fun skill => (skill.content, (getZeptometa weatherLib skill).always)) = some ("Use wttr.in.".toList, true) := by decide
  obtain ⟨skill, hskill, hview⟩ := Option.map_eq_some_iff.mp hload
  obtain ⟨hcontent, hon⟩ := Prod.mk.inj hview
  have hin := hreaches _ skill ⟨by rw [hlist]; exact List.mem_singleton_self _, hskill, hon, by decide⟩
  unfold buildSkillsPrompt at hin
  rw [hlist, hnames, hcontent] at hin
  -- the prompt has no character of the content's first word
  exact absurd (hin.mem (List.mem_cons_self (a := 'U'))) (by decide)

end Zeptoclaw
