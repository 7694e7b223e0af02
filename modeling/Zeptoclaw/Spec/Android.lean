import Zeptoclaw.Lib.Assoc
import Zeptoclaw.Lib.Text
import Mathlib.Data.Char
import Mathlib.Data.List.Lex

/-!
# The screen of an Android device

What the Android tool shows of a screen (`tools/android/screen.rs`), and its `StuckDetector` (`tools/android/stuck.rs`),
which is told of every screen and every action, and alerts. The elements of a dump come with their scores.
-/

namespace Zeptoclaw

/-- What the detector and the selection read of an element of the screen. -/
structure UIElement where
  text : Str
  center : ℤ × ℤ
  id : Option Str
  enabled : Bool
  checked : Bool
  score : ℤ
  deriving DecidableEq, Repr

/-! ## Screens -/

namespace Screen

def dedupTolerance : ℤ := 5

def defaultTopN : ℕ := 30

/-- The bucket of an element. -/
def bucket (e : UIElement) : ℤ × ℤ := (e.center.1.tdiv dedupTolerance, e.center.2.tdiv dedupTolerance)

/-- An element in the loop of `dedup_elements`. -/
def dedupStep (buckets : Assoc (ℤ × ℤ) UIElement) (elem : UIElement) : Assoc (ℤ × ℤ) UIElement :=
  match buckets.lookup (bucket elem) with
  | some entry => if entry.score < elem.score then buckets.insert (bucket elem) elem else buckets
  | none => buckets.insert (bucket elem) elem

/-- The buckets of `dedup_elements`. -/
def dedupElements (elements : List UIElement) : Assoc (ℤ × ℤ) UIElement := elements.foldl dedupStep ∅

/-- By y, then by x. -/
def positionLe (a b : UIElement) : Bool :=
  decide (a.center.2 < b.center.2) || (decide (a.center.2 = b.center.2) && decide (a.center.1 ≤ b.center.1))

/-- By falling score, then by position. -/
def scoreLe (a b : UIElement) : Bool := decide (b.score < a.score) || (decide (a.score = b.score) && positionLe a b)

/-- What `dedup_elements` may return: the elements of the buckets, in some order. -/
def Deduped (elements values : List UIElement) : Prop := values.Perm ((dedupElements elements).pairs.map Prod.snd)

/-- `process_elements` behind `dedup_elements`. -/
def processElements (values : List UIElement) (topN : Option ℕ) : List UIElement :=
  ((values.mergeSort scoreLe).take (topN.getD defaultTopN)).mergeSort positionLe

end Screen

/-! ## Signs of being stuck -/

def UIElement.hashKey (e : UIElement) : Str :=
  e.id.getD [] ++ '|' :: e.text ++ '|' :: (toString e.center.1).toList ++ ',' :: (toString e.center.2).toList ++
    '|' :: (toString e.enabled).toList ++ '|' :: (toString e.checked).toList

inductive StuckAlert where
  | screenUnchanged (message : Str)
  | actionRepeated (message : Str)
  | navigationDrift (message : Str)
  deriving DecidableEq, Repr

def screenHistorySize : ℕ := 8

def unchangedThreshold : ℕ := 3

def actionHistorySize : ℕ := 8

def repeatThreshold : ℕ := 3

def navActions : List Str := ["back".toList, "home".toList, "recent".toList]

def driftThreshold : ℕ := 4

def driftWindow : ℕ := 5

structure StuckDetector where
  screenHashes : List Str := []
  actionHistory : List Str := []
  deriving DecidableEq, Repr

/-- What the detector is told; nothing in the program calls `reset`. -/
inductive Observation where
  | screen (elements : List UIElement)
  | action (action : Str)
  | reset

namespace StuckDetector

def hashScreen (elements : List UIElement) : Str :=
  List.intercalate [';'] ((elements.map UIElement.hashKey).mergeSort fun a b => decide (a ≤ b))

/-- A deque of bounded size with an entry at its end. -/
def pushBack (size : ℕ) (history : List Str) (entry : Str) : List Str :=
  (if size ≤ history.length then history.tail else history) ++ [entry]

def unchangedText (count : ℕ) : Str :=
  "Screen unchanged for ".toList ++ (toString count).toList ++
    (" consecutive observations. " ++ "Try a different action or scroll to reveal new elements.").toList

def repeatedText (action : Str) (count : ℕ) : Str :=
  "Action '".toList ++ action ++ "' repeated ".toList ++ (toString count).toList ++ " times in the last ".toList ++
    (toString actionHistorySize).toList ++ (" actions. " ++ "Consider a different approach.").toList

def driftText (count : ℕ) : Str :=
  (toString count).toList ++ " navigation actions (back/home/recent) in the last ".toList ++ (toString driftWindow).toList ++
    (" actions. " ++ "The agent may be navigating without clear purpose.").toList

def observeScreen (d : StuckDetector) (elements : List UIElement) : StuckDetector × List StuckAlert :=
  let hash := hashScreen elements
  let consecutiveSame := (d.screenHashes.reverse.takeWhile fun h => h = hash).length
  ({ d with screenHashes := pushBack screenHistorySize d.screenHashes hash },
    if unchangedThreshold - 1 ≤ consecutiveSame then [.screenUnchanged (unchangedText (consecutiveSame + 1))] else [])

def observeAction (toLowercase : Str → Str) (d : StuckDetector) (action : Str) : StuckDetector × List StuckAlert :=
  let sig := toLowercase action
  let repeatCount := ((d.actionHistory.reverse.take actionHistorySize).filter fun a => a = sig).length
  let navCount := ((d.actionHistory.reverse.take (driftWindow - 1)).filter fun a => a ∈ navActions).length +
    if sig ∈ navActions then 1 else 0
  ({ d with actionHistory := pushBack actionHistorySize d.actionHistory sig },
    (if repeatThreshold - 1 ≤ repeatCount then [.actionRepeated (repeatedText action (repeatCount + 1))] else []) ++
      if driftThreshold ≤ navCount then [.navigationDrift (driftText navCount)] else [])

def observe (toLowercase : Str → Str) (d : StuckDetector) : Observation → StuckDetector × List StuckAlert
  | .screen elements => d.observeScreen elements
  | .action action => d.observeAction toLowercase action
  | .reset => ({}, [])

end StuckDetector

end Zeptoclaw
