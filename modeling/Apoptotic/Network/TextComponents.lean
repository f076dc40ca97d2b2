import Apoptotic.Lib.JsonText

/-!
# Text components

The JSON that the server splices texts into: the chat broadcasts, the kick and the answers to commands of
`mc-network/src/play_loop.rs`, the scoreboard and the boss bars of `connection.rs` and `handler_sync.rs`,
the teams of `handler_sync.rs`, and `/title` of `mc-command/src/commands/advanced.rs`, which escapes
quotes and backslashes.

Principal result: `faithful_iff` — a message is the component of its text exactly when nothing that was
spliced into it has a quote, a backslash or a control character; a title may have the former two, and no
score and no boss bar is one.
-/

namespace Apoptotic.TextComponents

open JsonText

/-! ## The format strings -/

/-- A component with one key. -/
def component (text : String) : String := "\x7b\"text\":\"" ++ text ++ "\"\x7d"

def coloredComponent (color text : String) : String :=
  "\x7b\"text\":\"" ++ text ++ "\",\"color\":\"" ++ color ++ "\"\x7d"

/-- `PlayDisconnect` for a kicked player. -/
def disconnectReason (reason : String) : String := coloredComponent "red" reason

/-- What the other players see of a kick. -/
def kickText (senderName reason : String) : String := senderName ++ " was kicked: " ++ reason

def kickContent (senderName reason : String) : String :=
  coloredComponent "yellow" (kickText senderName reason)

/-- `broadcast_join` -/
def joinText (username : String) : String := username ++ " joined the game"

/-- `broadcast_leave` -/
def leaveText (username : String) : String := username ++ " left the game"

def joinContent (username : String) : String := coloredComponent "yellow" (joinText username)

def leaveContent (username : String) : String := coloredComponent "yellow" (leaveText username)

def privateText (senderName message : String) : String := "[" ++ senderName ++ " → you] " ++ message

def privateContent (senderName message : String) : String :=
  coloredComponent "light_purple" (privateText senderName message)

def systemContent (message : String) : String := coloredComponent "gray" message

def chatText (senderName message : String) : String := "<" ++ senderName ++ "> " ++ message

def chatContent (senderName message : String) : String := component (chatText senderName message)

/-- `Ok(response)` of a command. -/
def responseContent (response : String) : String := coloredComponent "gray" response

/-- `Err(e)` of a command. -/
def errorContent (e : String) : String := coloredComponent "red" e

/-- `Err(e)` of a click in a container. -/
def containerErrorContent (e : String) : String := component e

/-- `objective_value` -/
def objectiveValue (displayName : String) : String := component displayName

/-- `display_name`, `prefix` and `suffix` of a team. -/
def teamText (text : String) : String := component text

/-- `text.replace('\\', "\\\\").replace('"', "\\\"")` -/
def replaceBoth (text : String) : String :=
  String.ofList ((text.toList.flatMap fun c => if c = '\\' then ['\\', '\\'] else [c]).flatMap
    fun c => if c = '"' then ['\\', '"'] else [c])

/-- `json_text` of `/title`. -/
def titleJson (text : String) : String := component (replaceBoth text)

/-- `display_name` of a score is the name of its entity as it is. -/
def scoreDisplayName (entityName : String) : String := entityName

/-- The title of a boss bar is sent as it is. -/
def bossBarTitle (title : String) : String := title

/-! ## Messages -/

/-- The keys of a format string with that colour. -/
def keysOf : Option String → List (List Char)
  | some _ => ["text".toList, "color".toList]
  | none => ["text".toList]

/-- What the server sends a text in. -/
inductive Message where
  | disconnect (reason : String)
  | kick (senderName reason : String)
  | join (username : String)
  | leave (username : String)
  | privateMessage (senderName message : String)
  | system (message : String)
  | chat (senderName message : String)
  | response (answer : String)
  | error (e : String)
  | containerError (e : String)
  | objective (displayName : String)
  | team (text : String)
  | title (text : String)
  | score (entityName : String)
  | bossBar (name : String)

namespace Message

def json : Message → String
  | .disconnect reason => disconnectReason reason
  | .kick senderName reason => kickContent senderName reason
  | .join username => joinContent username
  | .leave username => leaveContent username
  | .privateMessage senderName message => privateContent senderName message
  | .system message => systemContent message
  | .chat senderName message => chatContent senderName message
  | .response answer => responseContent answer
  | .error e => errorContent e
  | .containerError e => containerErrorContent e
  | .objective displayName => objectiveValue displayName
  | .team text => teamText text
  | .title text => titleJson text
  | .score entityName => scoreDisplayName entityName
  | .bossBar name => bossBarTitle name

/-- The text that is meant. -/
def text : Message → String
  | .disconnect reason => reason
  | .kick senderName reason => kickText senderName reason
  | .join username => joinText username
  | .leave username => leaveText username
  | .privateMessage senderName message => privateText senderName message
  | .system message => message
  | .chat senderName message => chatText senderName message
  | .response answer => answer
  | .error e => e
  | .containerError e => e
  | .objective displayName => displayName
  | .team text => text
  | .title text => text
  | .score entityName => entityName
  | .bossBar name => name

/-- The colour of the format string. -/
def color : Message → Option String
  | .disconnect _ => some "red"
  | .kick _ _ => some "yellow"
  | .join _ => some "yellow"
  | .leave _ => some "yellow"
  | .privateMessage _ _ => some "light_purple"
  | .system _ => some "gray"
  | .response _ => some "gray"
  | .error _ => some "red"
  | _ => none

/-- The keys of the format string. -/
def keys (m : Message) : List (List Char) := keysOf m.color

/-- What others wrote of the text. -/
def contents : Message → List String
  | .kick senderName reason => [senderName, reason]
  | .join username => [username]
  | .leave username => [username]
  | .privateMessage senderName message => [senderName, message]
  | .chat senderName message => [senderName, message]
  | m => [m.text]

/-- **The message is an object with the keys of its format string whose text is what is meant.** -/
def Faithful (m : Message) : Prop :=
  ∃ members, Denotes (.obj members) m.json.toList ∧ members.map Prod.fst = m.keys ∧
    members.lookup "text".toList = some (.str m.text.toList)

/-- No content has a quote, a backslash or a control character; that of a title has no control
character; a score and a boss bar are never quiet. -/
def Quiet : Message → Prop
  | .title text => ∀ c ∈ text.toList, 0x20 ≤ c.toNat
  | .score _ => False
  | .bossBar _ => False
  | m => ∀ s ∈ m.contents, ∀ c ∈ s.toList, Plain c

end Message

/-! ## The text inside -/

def textKey : List Char := "text".toList

/-- What the quoted text is spliced between. -/
def frame (raw tail : List Char) : List Char :=
  '\x7b' :: '"' :: (textKey ++ '"' :: ':' :: '"' :: (raw ++ '"' :: tail))

/-- What stands behind the quoted text. -/
def colorTail : Option String → List Char
  | none => ['\x7d']
  | some color => ',' :: '"' :: ("color".toList ++ '"' :: ':' :: '"' :: (color.toList ++ '"' :: ['\x7d']))

theorem toList_component (raw : String) : (component raw).toList = frame raw.toList (colorTail none) := by
  simp [component, frame, textKey, colorTail]

theorem toList_coloredComponent (color raw : String) :
    (coloredComponent color raw).toList = frame raw.toList (colorTail (some color)) := by
  simp [coloredComponent, frame, textKey, colorTail]

instance : DecidablePred Plain := fun c =>
  decidable_of_iff (c ≠ '"' ∧ c ≠ '\\' ∧ 0x20 ≤ c.toNat)
    ⟨fun h => ⟨h.1, h.2.1, h.2.2⟩, fun h => ⟨h.quote, h.backslash, h.control⟩⟩

theorem forall_plain_of_all {s : List Char} (h : s.all fun c => Plain c) : ∀ c ∈ s, Plain c :=
  fun c hc => of_decide_eq_true (List.all_eq_true.1 h c hc)

/-- A frame with a quoted text is a component of it exactly when the quotes hold its literal. -/
theorem exists_denotes_frame_iff {s raw : List Char} {color : Option String}
    (hcolor : ∀ c, color = some c → ∀ x ∈ c.toList, Plain x)
    (htail : ∀ tail, Literal s ('"' :: (raw ++ '"' :: colorTail color)) tail → tail = colorTail color) :
    (∃ members, Denotes (.obj members) (frame raw (colorTail color)) ∧
        members.map Prod.fst = keysOf color ∧ members.lookup textKey = some (.str s)) ↔
      ∃ tail, Literal s ('"' :: (raw ++ '"' :: colorTail color)) tail := by
  have hkey : ∀ x ∈ textKey, Plain x := forall_plain_of_all (by decide)
  constructor
  · rintro ⟨members, hdenotes, hkeys, hlookup⟩
    obtain ⟨ks, hks⟩ : ∃ ks, keysOf color = textKey :: ks := by
      cases color with
      | none => exact ⟨_, rfl⟩
      | some c => exact ⟨_, rfl⟩
    obtain ⟨s', members', tail, rfl, hs⟩ := exists_of_denotes_obj hdenotes (hkeys.trans hks)
    rw [List.lookup_cons_self] at hlookup
    cases hlookup
    exact ⟨tail, hs⟩
  · rintro ⟨tail, hs⟩
    obtain rfl := htail tail hs
    cases color with
    | none => exact ⟨_, denotes_one hkey hs, rfl, List.lookup_cons_self⟩
    | some c =>
        have hplain : ∀ x ∈ "color".toList, Plain x := forall_plain_of_all (by decide)
        exact ⟨_, denotes_two hkey hplain (hcolor c rfl) hs, rfl, List.lookup_cons_self⟩

/-- A spliced text is a component of itself exactly when it is plain. -/
theorem exists_denotes_spliced_iff {s : List Char} {color : Option String}
    (hcolor : ∀ c, color = some c → ∀ x ∈ c.toList, Plain x) :
    (∃ members, Denotes (.obj members) (frame s (colorTail color)) ∧
        members.map Prod.fst = keysOf color ∧ members.lookup textKey = some (.str s)) ↔
      ∀ c ∈ s, Plain c := by
  rw [exists_denotes_frame_iff hcolor fun tail h => (literal_plain_iff.1 h).2]
  constructor
  · rintro ⟨tail, h⟩
    exact (literal_plain_iff.1 h).1
  · intro h
    exact ⟨_, literal_plain_iff.2 ⟨h, rfl⟩⟩

/-- An escaped text is a component of the text exactly when it has no control character. -/
theorem exists_denotes_escaped_iff {s : List Char} :
    (∃ members, Denotes (.obj members) (frame (escapeQuotes s) (colorTail none)) ∧
        members.map Prod.fst = keysOf none ∧ members.lookup textKey = some (.str s)) ↔
      ∀ c ∈ s, 0x20 ≤ c.toNat := by
  rw [exists_denotes_frame_iff (fun _ h => by cases h) fun tail h => (literal_escaped_iff.1 h).2]
  constructor
  · rintro ⟨tail, h⟩
    exact (literal_escaped_iff.1 h).1
  · intro h
    exact ⟨_, literal_escaped_iff.2 ⟨h, rfl⟩⟩

/-- The two replacements, one after the other, escape each character once. -/
theorem toList_replaceBoth (text : String) : (replaceBoth text).toList = escapeQuotes text.toList := by
  rw [replaceBoth, String.toList_ofList, List.flatMap_assoc]
  refine List.flatMap_congr fun c hc => ?_
  by_cases hslash : c = '\\'
  · rw [if_pos hslash, if_pos hslash]
    rfl
  · rw [if_neg hslash, if_neg hslash, List.flatMap_singleton]

/-! ## The messages -/

namespace Message

variable {m : Message}

/-- The message has its text as it is. -/
def Spliced (m : Message) : Prop := m.json.toList = frame m.text.toList (colorTail m.color)

theorem color_plain (m : Message) : ∀ c, m.color = some c → ∀ x ∈ c.toList, Plain x := by
  intro c hc
  have hmem : c ∈ ["red", "yellow", "light_purple", "gray"] := by
    cases m <;> simp [color] at hc <;> simp [← hc]
  simp only [List.mem_cons, List.not_mem_nil, or_false] at hmem
  rcases hmem with rfl | rfl | rfl | rfl <;> exact forall_plain_of_all (by decide)

theorem forall_plain_append {a b : String} :
    (∀ c ∈ (a ++ b).toList, Plain c) ↔ (∀ c ∈ a.toList, Plain c) ∧ ∀ c ∈ b.toList, Plain c := by
  rw [String.toList_append]
  exact List.forall_mem_append

theorem forall_plain_text_of_eq (h : m.contents = [m.text]) :
    (∀ c ∈ m.text.toList, Plain c) ↔ ∀ s ∈ m.contents, ∀ c ∈ s.toList, Plain c := by
  rw [h, List.forall_mem_singleton]

/-- The text of a message is plain exactly when what others wrote of it is. -/
theorem forall_plain_text_iff (m : Message) :
    (∀ c ∈ m.text.toList, Plain c) ↔ ∀ s ∈ m.contents, ∀ c ∈ s.toList, Plain c := by
  have hkick : ∀ c ∈ " was kicked: ".toList, Plain c := forall_plain_of_all (by decide)
  have hjoin : ∀ c ∈ " joined the game".toList, Plain c := forall_plain_of_all (by decide)
  have hleave : ∀ c ∈ " left the game".toList, Plain c := forall_plain_of_all (by decide)
  have hopen : ∀ c ∈ "[".toList, Plain c := forall_plain_of_all (by decide)
  have hyou : ∀ c ∈ " → you] ".toList, Plain c := forall_plain_of_all (by decide)
  have hless : ∀ c ∈ "<".toList, Plain c := forall_plain_of_all (by decide)
  have hgreater : ∀ c ∈ "> ".toList, Plain c := forall_plain_of_all (by decide)
  cases m with
  | kick senderName reason =>
      simp only [text, contents, kickText, forall_plain_append, List.forall_mem_cons]
      exact ⟨fun h => ⟨h.1.1, h.2, nofun⟩, fun h => ⟨⟨h.1, hkick⟩, h.2.1⟩⟩
  | join username =>
      simp only [text, contents, joinText, forall_plain_append, List.forall_mem_singleton]
      exact and_iff_left hjoin
  | leave username =>
      simp only [text, contents, leaveText, forall_plain_append, List.forall_mem_singleton]
      exact and_iff_left hleave
  | privateMessage senderName message =>
      simp only [text, contents, privateText, forall_plain_append, List.forall_mem_cons]
      exact ⟨fun h => ⟨h.1.1.2, h.2, nofun⟩, fun h => ⟨⟨⟨hopen, h.1⟩, hyou⟩, h.2.1⟩⟩
  | chat senderName message =>
      simp only [text, contents, chatText, forall_plain_append, List.forall_mem_cons]
      exact ⟨fun h => ⟨h.1.1.2, h.2, nofun⟩, fun h => ⟨⟨⟨hless, h.1⟩, hgreater⟩, h.2.1⟩⟩
  | disconnect reason => exact forall_plain_text_of_eq rfl
  | system message => exact forall_plain_text_of_eq rfl
  | response answer => exact forall_plain_text_of_eq rfl
  | error e => exact forall_plain_text_of_eq rfl
  | containerError e => exact forall_plain_text_of_eq rfl
  | objective displayName => exact forall_plain_text_of_eq rfl
  | team text => exact forall_plain_text_of_eq rfl
  | title text => exact forall_plain_text_of_eq rfl
  | score entityName => exact forall_plain_text_of_eq rfl
  | bossBar name => exact forall_plain_text_of_eq rfl

theorem faithful_spliced_iff (h : m.Spliced) :
    m.Faithful ↔ ∀ s ∈ m.contents, ∀ c ∈ s.toList, Plain c := by
  rw [← forall_plain_text_iff, Faithful, h]
  exact exists_denotes_spliced_iff m.color_plain

theorem faithful_title_iff (text : String) :
    (title text).Faithful ↔ ∀ c ∈ text.toList, 0x20 ≤ c.toNat := by
  rw [Faithful, show (title text).json.toList = frame (escapeQuotes text.toList) (colorTail none) by
    rw [json, titleJson, toList_component, toList_replaceBoth]]
  exact exists_denotes_escaped_iff

/-- A text that is sent as it is would contain itself and more. -/
theorem not_faithful_of_raw (hjson : m.json = m.text) (hcolor : m.color = none) : ¬ m.Faithful := by
  rintro ⟨members, hdenotes, hkeys, hlookup⟩
  rw [keys, hcolor] at hkeys
  cases members with
  | nil => cases hkeys
  | cons member members =>
      obtain ⟨k, j⟩ := member
      obtain ⟨rfl, htail⟩ := List.cons.inj hkeys
      obtain rfl := List.map_eq_nil_iff.1 htail
      rw [List.lookup_cons_self] at hlookup
      cases hlookup
      rw [hjson] at hdenotes
      exact Nat.lt_irrefl _ (length_lt_of_denotes hdenotes)

/-- **A message is faithful exactly when it is quiet.** -/
theorem faithful_iff (m : Message) : m.Faithful ↔ m.Quiet := by
  cases m with
  | title text => exact faithful_title_iff text
  | score entityName => exact iff_false_intro (not_faithful_of_raw rfl rfl)
  | bossBar name => exact iff_false_intro (not_faithful_of_raw rfl rfl)
  | containerError e => exact faithful_spliced_iff (toList_component e)
  | objective displayName => exact faithful_spliced_iff (toList_component displayName)
  | team text => exact faithful_spliced_iff (toList_component text)
  | chat senderName message => exact faithful_spliced_iff (toList_component _)
  | disconnect reason => exact faithful_spliced_iff (toList_coloredComponent _ reason)
  | kick senderName reason => exact faithful_spliced_iff (toList_coloredComponent _ _)
  | join username => exact faithful_spliced_iff (toList_coloredComponent _ _)
  | leave username => exact faithful_spliced_iff (toList_coloredComponent _ _)
  | privateMessage senderName message => exact faithful_spliced_iff (toList_coloredComponent _ _)
  | system message => exact faithful_spliced_iff (toList_coloredComponent _ message)
  | response answer => exact faithful_spliced_iff (toList_coloredComponent _ answer)
  | error e => exact faithful_spliced_iff (toList_coloredComponent _ e)

/-- A chat message of one quote is no component. -/
theorem not_forall_faithful : ¬ ∀ m : Message, m.Faithful := by
  intro h
  obtain ⟨members, hdenotes, hkeys, hlookup⟩ := h (.chat "Eve" "\"")
  have hframe : (chat "Eve" "\"").json.toList = frame (chat "Eve" "\"").text.toList (colorTail none) :=
    toList_component _
  rw [hframe] at hdenotes
  have hplain := exists_denotes_spliced_iff (fun _ h => by cases h) |>.1 ⟨members, hdenotes, hkeys, hlookup⟩
  exact (hplain '"' (by decide)).quote rfl

end Message

end Apoptotic.TextComponents
