import Zeptoclaw.Lib.Occurrence
import Zeptoclaw.Spec.Gate
import Zeptoclaw.Spec.Workspace
import Mathlib.Data.Char
import Mathlib.Data.List.Lex

/-!
# Skills in the prompt

`skills/loader.rs` and `build_skills_prompt` of `cli/common.rs`, over a file system that does
not change meanwhile. A skill has the name of its directory and the name in its frontmatter. The YAML
library and the reading of the metadata are parameters.
-/

namespace Zeptoclaw

open Text

/-! ## What is read -/

/-- An entry of a directory: the name as text, and what the entry's own path is. -/
structure SkillDirEntry where
  name : Str
  isDir : Bool
  hasSkillFile : Bool

structure SkillFs where
  readDir : Str → Option (List SkillDirEntry)
  isFile : Str → Bool
  readToString : Str → Option Str

structure SkillRequirements where
  bins : List Str := []
  anyBins : List Str := []
  env : List Str := []
  deriving DecidableEq, Repr

structure ZeptoMetadata where
  emoji : Option Str := none
  requires : SkillRequirements := {}
  always : Bool := false
  os : List Str := []
  deriving DecidableEq, Repr

structure SkillMetadata where
  name : Str := []
  description : Str := []
  depends : List Str := []
  metadata : Option Json := none

structure Skill where
  name : Str
  description : Str
  path : Str
  metadata : SkillMetadata
  content : Str

/-- `serde_yaml::from_str` and `serde_json::from_value`. -/
structure SkillsLib where
  fromYaml : Str → Option SkillMetadata
  fromValue : Json → Option ZeptoMetadata

/-- The process: the platform, the directories of `PATH` and the variables that are set. -/
structure SkillsEnv where
  currentOs : Str
  path : Option (List Str)
  hasVar : Str → Bool

structure SkillsConfig where
  enabled : Bool
  alwaysLoad : List Str
  disabled : List Str

/-! ## Paths -/

/-- `Path::join`: an absolute path replaces the base. -/
def joinName (base name : Str) : Str := if name.head? = some '/' then name else joinPath base name

/-- `Path::parent`: without the last component, and without separators and dots at the end. -/
def parentDir (path : Str) : Str :=
  let dirs := (path.splitOn '/').dropLast
  let kept := dirs.rdropWhile fun c => c = [] || c = ['.']
  if kept = [] then (if path.head? = some '/' then ['/'] else if dirs.head? = some ['.'] then ['.'] else [])
  else ['/'].intercalate kept

def skillFileName : Str := "SKILL.md".toList

/-! ## The loader -/

structure SkillsLoader where
  workspaceDir : Str
  builtinDir : Str

/-- `Value::get` on a field name. -/
def Json.get (field : Str) : Json → Option Json
  | .object fields => (fields.find? fun f => f.1 = field).map Prod.snd
  | _ => none

def escapeXml (input : Str) : Str :=
  replace (replace (replace input "&".toList "&amp;".toList) "<".toList "&lt;".toList) ">".toList "&gt;".toList

/-- One directory; `seen` are the names in the output. -/
def collectSkillInfos (fs : SkillFs) (dir : Str) (output : List Str) : List Str :=
  ((fs.readDir dir).getD []).foldl (fun output entry =>
    if !entry.isDir then output
    else if output.contains entry.name then output
    else if !entry.hasSkillFile then output
    else output ++ [entry.name]) output

/-- `Vec::dedup`. -/
def dedupAdjacent : List Str → List Str
  | [] => []
  | [a] => [a]
  | a :: b :: names => if a = b then dedupAdjacent (b :: names) else a :: dedupAdjacent (b :: names)

def sortNames (names : List Str) : List Str := names.mergeSort fun a b => decide (a ≤ b)

section Loader

variable (lib : SkillsLib) (env : SkillsEnv) (fs : SkillFs) (loader : SkillsLoader)

def parseFrontmatterMetadata (frontmatter : Str) : SkillMetadata := (lib.fromYaml frontmatter).getD {}

/-- The text between the first two lines of dashes, and the text behind it. -/
def parseFrontmatter (content : Str) : SkillMetadata × Str :=
  if "---\n".toList <+: content then
    match cutFirst "\n---".toList (content.drop 4) with
    | some (frontmatter, rest) =>
      -- a newline behind the dashes is trimmed as well
      (parseFrontmatterMetadata lib frontmatter, trim rest)
    | none => ({}, content)
  else ({}, content)

/-- The scope that is looked at: the first of the names, or the whole value. -/
def getZeptometa (skill : Skill) : ZeptoMetadata :=
  let zepto := skill.metadata.metadata.bind fun value =>
    lib.fromValue ((value.get "zeptoclaw".toList).getD ((value.get "clawdbot".toList).getD
      ((value.get "openclaw".toList).getD ((value.get "clawdis".toList).getD value))))
  zepto.getD {}

def parseSkillFile (path fallbackName : Str) : Option Skill :=
  (fs.readToString path).map fun raw =>
    let (metadata, body) := parseFrontmatter lib raw
    let name := if trim metadata.name = [] then fallbackName else metadata.name
    let description :=
      if trim metadata.description = [] then "Skill '".toList ++ name ++ "'".toList else metadata.description
    { name, description, path, metadata, content := replace body "\x7bbaseDir\x7d".toList (parentDir path) }

/-- The file of a skill: the workspace is before the builtin directory. -/
def skillFile (name : Str) : Option Str :=
  let workspace := joinName (joinName loader.workspaceDir name) skillFileName
  let builtin := joinName (joinName loader.builtinDir name) skillFileName
  if fs.isFile workspace then some workspace else if fs.isFile builtin then some builtin else none

def loadSkill (name : Str) : Option Skill := (skillFile fs loader name).bind fun path => parseSkillFile lib fs path name

def binaryInPath (bin : Str) : Bool :=
  if trim bin = [] then false
  else (env.path.getD []).any fun dir => fs.isFile (joinName dir bin)

def checkRequirements (skill : Skill) : Bool :=
  let zepto := getZeptometa lib skill
  (zepto.os = [] || zepto.os.contains env.currentOs) &&
    zepto.requires.bins.all (binaryInPath env fs) &&
    (zepto.requires.anyBins = [] || zepto.requires.anyBins.any (binaryInPath env fs)) &&
    zepto.requires.env.all env.hasVar &&
    skill.metadata.depends.all fun dep => (loadSkill lib fs loader dep).isSome

/-- The names of the directories, sorted. -/
def listSkills (filterUnavailable : Bool) : List Str :=
  let out := collectSkillInfos fs loader.builtinDir (collectSkillInfos fs loader.workspaceDir [])
  let available := out.filter fun name => ((loadSkill lib fs loader name).map (checkRequirements lib env fs loader)).getD false
  sortNames (if filterUnavailable then available else out)

def contextPart (skill : Skill) : Str :=
  "### ".toList ++ (getZeptometa lib skill).emoji.getD "📚".toList ++ " ".toList ++ skill.name ++ " Skill\n\n".toList ++
    skill.content

def loadSkillsForContext (names : List Str) : Str :=
  "\n\n---\n\n".toList.intercalate (names.filterMap fun name => (loadSkill lib fs loader name).map (contextPart lib))

/-- The frontmatter names. -/
def getAlwaysSkills : List Str :=
  (((listSkills lib env fs loader false).filterMap (loadSkill lib fs loader)).filter fun skill =>
    (getZeptometa lib skill).always).map Skill.name

/-! ## The prompt -/

def isDisabled (config : SkillsConfig) (name : Str) : Bool :=
  (config.disabled.map fun d => d.map Char.toLower).contains (name.map Char.toLower)

def summaryLines (skill : Skill) : List Str :=
  ["  <skill available=\"".toList ++ (if checkRequirements lib env fs loader skill then "true" else "false").toList ++
      "\">".toList,
    "    <name>".toList ++ escapeXml skill.name ++ "</name>".toList,
    "    <description>".toList ++ escapeXml skill.description ++ "</description>".toList,
    "    <location>".toList ++ escapeXml skill.path ++ "</location>".toList,
    "  </skill>".toList]

/-- The names whose contents are put into the prompt. -/
def alwaysNames (config : SkillsConfig) : List Str :=
  ((dedupAdjacent (sortNames (getAlwaysSkills lib env fs loader ++ config.alwaysLoad))).filter fun name =>
    !isDisabled config name).filter fun name => (loadSkill lib fs loader name).isSome

def buildSkillsPrompt (config : SkillsConfig) : Str :=
  if !config.enabled then []
  else
    let visible := (listSkills lib env fs loader false).filter fun name => !isDisabled config name
    if visible = [] then []
    else
      let lines := ["<skills>".toList] ++
        (visible.filterMap (loadSkill lib fs loader)).flatMap (summaryLines lib env fs loader) ++ ["</skills>".toList]
      let names := alwaysNames lib env fs loader config
      let content := if names = [] then [] else loadSkillsForContext lib fs loader names
      if content = [] then "\n".toList.intercalate lines
      else "\n".toList.intercalate lines ++ "\n\n## Active Skills\n\n".toList ++ content

end Loader

end Zeptoclaw
