import Amicode.Foundation.JsonValue

/-!
# The payload of an agent's output

A critic or a planner answers in a stream of events, one a line, whose text parts hold a JSON object somewhere
in prose (`agent_spawn.ts`). The text parts are searched from the newest, the whole output if there is none, and
in each the object is looked for at the first opening brace only.

`JSON.parse` is a parameter: any function from texts to values.
-/

namespace Amicode.SpecReview

open JsText List

variable (parse : List Char → Option JsonValue)

/-! ## The scan for braces -/

/-- Where a scan is: how many braces are open, whether it is in a JSON string, and behind a backslash there. -/
structure Scan where
  depth : ℕ := 0
  inStr : Bool := false
  esc : Bool := false

def Scan.next (s : Scan) (c : Char) : Scan :=
  if s.inStr then
    if s.esc then { s with esc := false }
    else if c = '\\' then { s with esc := true }
    else if c = '"' then { s with inStr := false }
    else s
  else if c = '"' then { s with inStr := true }
  else if c = '{' then { s with depth := s.depth + 1 }
  else if c = '}' then { s with depth := s.depth - 1 }
  else s

/-- What a scan reads up to the brace with which none is left open. -/
def balanced : Scan → List Char → Option (List Char)
  | _, [] => none
  | s, c :: rest =>
    if s.inStr = false ∧ c = '}' ∧ s.depth = 1 then some [c] else (balanced (s.next c) rest).map (c :: ·)

/-- The text as a JSON object: no array, no `null`. -/
def object? (text : List Char) : Option JsonValue := (parse text).filter fun v ↦ v matches .obj _

/-- The object of the balanced text that begins a text. -/
def payloadAt? (text : List Char) : Option JsonValue :=
  if text.head? = some '{' then (balanced {} text).bind (object? parse) else none

def firstJsonObject (s : List Char) : Option JsonValue := payloadAt? parse (s.dropWhile (· ≠ '{'))

/-! ## The output -/

def textPart? (line : List Char) : Option (List Char) :=
  if trim line = [] then none
  else do
    let ev ← parse (trim line)
    guard (((ev.get? "type").bind JsonValue.str?) = some "text")
    let text ← ((ev.get? "part").bind (·.get? "text")).bind JsonValue.str?
    return text.toList

def texts (stdout : List Char) : List (List Char) := (splitOn ['\n'] stdout).filterMap (textPart? parse)

def parseAgentOutput (stdout : List Char) : Option JsonValue :=
  match (texts parse stdout).reverse.findSome? (firstJsonObject parse) with
  | some obj => some obj
  | none => if texts parse stdout = [] then firstJsonObject parse stdout else none

/-! ## The law -/

/-- From a scan on, the braces of a text are closed by its last character and not before. -/
def Closes (s : Scan) (text : List Char) : Prop :=
  (text.foldl Scan.next s).depth = 0 ∧ ∀ p, p <+: text → p ≠ [] → p ≠ text → (p.foldl Scan.next s).depth ≠ 0

/-- A text that opens with a brace and closes it with its last character; braces in strings do not count. -/
def IsBalanced (text : List Char) : Prop := text.head? = some '{' ∧ Closes {} text

/-- A balanced text that is a JSON object begins a text. -/
def Begins (text : List Char) (obj : JsonValue) : Prop :=
  ∃ c, c <+: text ∧ IsBalanced c ∧ object? parse c = some obj

/-- The first balanced part of a text that is a JSON object has the value. -/
def IsFirstPayload (text : List Char) (obj : JsonValue) : Prop :=
  ∃ rest, rest <:+ text ∧ Begins parse rest obj ∧
    ∀ longer, longer <:+ text → rest.length < longer.length → ∀ obj', ¬ Begins parse longer obj'

/-- The texts that are searched, in their order. -/
def searched (stdout : List Char) : List (List Char) :=
  if texts parse stdout = [] then [stdout] else (texts parse stdout).reverse

/-- The law of an output: its payload is the first of the first text that has one. -/
def PayloadLaw (stdout : List Char) : Prop :=
  ∀ obj, parseAgentOutput parse stdout = some obj ↔
    ∃ newer text older, searched parse stdout = newer ++ text :: older ∧
      (∀ t ∈ newer, ∀ obj', ¬ IsFirstPayload parse t obj') ∧ IsFirstPayload parse text obj

/-- The first payload of a text, looked for at every place. -/
def firstPayload? (text : List Char) : Option JsonValue := text.tails.findSome? (payloadAt? parse)

/-- What begins at the first opening brace of a text. -/
def atFirstBrace? (text : List Char) : Option JsonValue := payloadAt? parse (text.dropWhile (· ≠ '{'))

/-- The first of the texts with a payload has it at its first opening brace, or else an equal one begins at the
first opening brace of the first later text where one begins there. -/
def InReach : List (List Char) → Prop
  | [] => True
  | text :: older =>
    match firstPayload? parse text with
    | none => InReach older
    | some obj => atFirstBrace? parse text ≠ none ∨ older.findSome? (atFirstBrace? parse) = some obj

/-! ## Balanced texts -/

section Balanced

variable {s : Scan} {c : Char} {text candidate : List Char}

theorem Scan.depth_next_eq_zero_iff (h : 0 < s.depth) :
    (s.next c).depth = 0 ↔ s.inStr = false ∧ c = '}' ∧ s.depth = 1 := by
  unfold Scan.next
  split_ifs with hin hesc hback hquote hquote' hopen hclose <;> simp_all <;> omega

theorem closes_cons_iff : Closes s (c :: text) ↔
    if (s.next c).depth = 0 then text = [] else text ≠ [] ∧ Closes (s.next c) text := by
  split_ifs with hzero
  · constructor
    · intro h
      by_contra hne
      exact h.2 [c] (by simp) (by simp) (by simpa using Ne.symm hne) hzero
    · rintro rfl
      refine ⟨hzero, fun p hp hnil hne ↦ absurd ?_ hne⟩
      rcases prefix_cons_iff.mp hp with rfl | ⟨p, rfl, htail⟩
      · exact absurd rfl hnil
      · rw [prefix_nil.mp htail]
  · constructor
    · rintro ⟨hclosed, hshort⟩
      refine ⟨?_, hclosed, fun p hp _ hne ↦ ?_⟩
      · rintro rfl
        exact hzero hclosed
      · exact hshort (c :: p) ((prefix_cons_inj c).mpr hp) (cons_ne_nil _ _) (by simpa using hne)
    · rintro ⟨-, hclosed, hshort⟩
      refine ⟨hclosed, fun p hp hnil hne ↦ ?_⟩
      rcases prefix_cons_iff.mp hp with rfl | ⟨p, rfl, htail⟩
      · exact absurd rfl hnil
      · by_cases hp' : p = []
        · rwa [hp']
        · exact hshort p htail hp' (by simpa using hne)

/-- A scan reads up to the first place where no brace is open. -/
theorem balanced_eq_some_iff (h : 0 < s.depth) : balanced s text = some candidate ↔
    candidate <+: text ∧ candidate ≠ [] ∧ Closes s candidate := by
  induction text generalizing s candidate with
  | nil =>
    simp only [balanced, reduceCtorEq, prefix_nil, false_iff]
    rintro ⟨rfl, hne, -⟩
    exact hne rfl
  | cons c rest ih =>
    rw [balanced]
    simp only [← Scan.depth_next_eq_zero_iff h]
    rcases candidate with _ | ⟨d, candidate⟩
    · split_ifs <;> simp
    · rw [cons_prefix_cons]
      by_cases hd : d = c
      · subst hd
        rw [closes_cons_iff]
        split_ifs with hzero
        · simp +contextual [eq_comm]
        · simp [ih (Nat.pos_of_ne_zero hzero)]
      · split_ifs <;> simp [hd, Ne.symm hd]

end Balanced

/-! ## The first payload -/

section Payload

variable {parse} {text : List Char} {obj : JsonValue}

theorem balanced_brace_eq_some_iff {rest c : List Char} : balanced {} ('{' :: rest) = some c ↔
    c <+: '{' :: rest ∧ IsBalanced c := by
  have hscan : balanced {} ('{' :: rest) = (balanced (Scan.next {} '{') rest).map ('{' :: ·) := rfl
  rw [hscan]
  rcases c with _ | ⟨d, c⟩
  · simp [IsBalanced]
  · rw [cons_prefix_cons, IsBalanced, head?_cons, Option.some.injEq]
    by_cases hd : d = '{'
    · subst hd
      have hopen : (Scan.next {} '{').depth ≠ 0 := Nat.one_ne_zero
      rw [closes_cons_iff, if_neg hopen]
      simp [balanced_eq_some_iff (Nat.pos_of_ne_zero hopen)]
    · simp [hd, Ne.symm hd]

theorem payloadAt?_eq_some_iff : payloadAt? parse text = some obj ↔ Begins parse text obj := by
  unfold payloadAt? Begins
  by_cases hhead : text.head? = some '{'
  · obtain ⟨rest, rfl⟩ := head?_eq_some_iff.mp hhead
    simp only [if_pos hhead, Option.bind_eq_some_iff, balanced_brace_eq_some_iff, and_assoc]
  · rw [if_neg hhead]
    refine iff_of_false nofun ?_
    rintro ⟨c, hc, ⟨hbrace, -⟩, -⟩
    obtain ⟨tail, rfl⟩ := head?_eq_some_iff.mp hbrace
    obtain ⟨after, rfl⟩ := hc
    exact hhead rfl

/-- The first suffix with a value. -/
theorem findSome?_tails_eq_some_iff {α β : Type*} {f : List α → Option β} {l : List α} {b : β} :
    l.tails.findSome? f = some b ↔ ∃ rest, rest <:+ l ∧ f rest = some b ∧
      ∀ longer, longer <:+ l → rest.length < longer.length → f longer = none := by
  induction l with
  | nil =>
    simp only [List.tails, findSome?_singleton, suffix_nil]
    simp
  | cons a l ih =>
    rw [List.tails, findSome?_cons]
    rcases ha : f (a :: l) with _ | v
    · dsimp only
      rw [ih]
      constructor
      · rintro ⟨rest, hrest, hb, hfirst⟩
        refine ⟨rest, hrest.trans (suffix_cons a l), hb, fun longer hlonger hlt ↦ ?_⟩
        rcases suffix_cons_iff.mp hlonger with rfl | hlonger
        · exact ha
        · exact hfirst longer hlonger hlt
      · rintro ⟨rest, hrest, hb, hfirst⟩
        rcases suffix_cons_iff.mp hrest with rfl | hrest
        · rw [ha] at hb
          cases hb
        · exact ⟨rest, hrest, hb, fun longer hlonger ↦ hfirst longer (hlonger.trans (suffix_cons a l))⟩
    · dsimp only
      constructor
      · rintro ⟨⟩
        exact ⟨a :: l, suffix_rfl, ha, fun longer hlonger hlt ↦ absurd hlonger.length_le (by omega)⟩
      · rintro ⟨rest, hrest, hb, hfirst⟩
        rcases suffix_cons_iff.mp hrest with rfl | hrest
        · exact ha.symm.trans hb
        · have hnone := hfirst (a :: l) suffix_rfl (Nat.lt_succ_of_le hrest.length_le)
          rw [ha] at hnone
          cases hnone

theorem firstPayload?_eq_some_iff : firstPayload? parse text = some obj ↔ IsFirstPayload parse text obj := by
  simp only [firstPayload?, findSome?_tails_eq_some_iff, payloadAt?_eq_some_iff, IsFirstPayload,
    Option.eq_none_iff_forall_ne_some, ne_eq]

/-- What begins at the first opening brace is the first payload. -/
theorem firstPayload?_of_atFirstBrace? (h : atFirstBrace? parse text = some obj) :
    firstPayload? parse text = some obj := by
  unfold atFirstBrace? at h
  induction text with
  | nil => exact h
  | cons c rest ih =>
    rw [firstPayload?, List.tails, findSome?_cons]
    by_cases hc : c = '{'
    · rw [dropWhile_cons_of_neg (by simpa using hc)] at h
      rw [h]
    · rw [dropWhile_cons_of_pos (by simpa using hc)] at h
      have hnone : payloadAt? parse (c :: rest) = none := by simp [payloadAt?, hc]
      rw [hnone]
      exact ih h

theorem findSome?_eq_iff_inReach (l : List (List Char)) :
    l.findSome? (atFirstBrace? parse) = l.findSome? (firstPayload? parse) ↔ InReach parse l := by
  induction l with
  | nil => simp [InReach]
  | cons text older ih =>
    rw [findSome?_cons, findSome?_cons, InReach]
    rcases hfirst : atFirstBrace? parse text with _ | v
    · rcases hpayload : firstPayload? parse text with _ | obj
      · exact ih
      · simp
    · simp [firstPayload?_of_atFirstBrace? hfirst]

theorem parseAgentOutput_eq (stdout : List Char) :
    parseAgentOutput parse stdout = (searched parse stdout).findSome? (atFirstBrace? parse) := by
  have hsame : firstJsonObject parse = atFirstBrace? parse := rfl
  unfold parseAgentOutput searched
  rw [hsame]
  by_cases htexts : texts parse stdout = []
  · simp [htexts]
  · rw [if_neg htexts, if_neg htexts]
    rcases (texts parse stdout).reverse.findSome? (atFirstBrace? parse) with _ | obj <;> rfl

/-- **The payload of an output is its first JSON object exactly if it stands at the first opening brace.** -/
theorem payloadLaw_iff (stdout : List Char) : PayloadLaw parse stdout ↔ InReach parse (searched parse stdout) := by
  have hspec (obj : JsonValue) : (searched parse stdout).findSome? (firstPayload? parse) = some obj ↔
      ∃ newer text older, searched parse stdout = newer ++ text :: older ∧
        (∀ t ∈ newer, ∀ obj', ¬ IsFirstPayload parse t obj') ∧ IsFirstPayload parse text obj := by
    simp only [List.findSome?_eq_some_iff, ← firstPayload?_eq_some_iff, ← ne_eq,
      ← Option.eq_none_iff_forall_ne_some]
    tauto
  rw [← findSome?_eq_iff_inReach, ← parseAgentOutput_eq, PayloadLaw]
  simp only [← hspec]
  exact ⟨fun h ↦ Option.ext h, fun h obj ↦ by rw [h]⟩

end Payload

def parseEmpty (text : List Char) : Option JsonValue := if text = "{}".toList then some (.obj []) else none

/-- Braces before the object hide it. -/
theorem not_payloadLaw_braces : ¬ ∀ (parse : List Char → Option JsonValue) (stdout : List Char),
    PayloadLaw parse stdout := by
  intro h
  have hnone : parseAgentOutput parseEmpty "{x} {}".toList = none := rfl
  have hpayload : firstPayload? parseEmpty "{x} {}".toList = some (.obj []) := rfl
  have hfound := (h parseEmpty "{x} {}".toList (.obj [])).mpr
    ⟨[], _, [], rfl, by simp, firstPayload?_eq_some_iff.mp hpayload⟩
  rw [hnone] at hfound
  cases hfound

end Amicode.SpecReview
