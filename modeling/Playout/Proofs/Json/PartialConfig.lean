import Playout.Proofs.Json.RoundTrip

/-!
# Configurations of which a part is given

An object may give any of the fields of a configuration, in any order and among other fields, and
the rest is as usual. An array gives the first fields. Nothing is said of how the text is laid out:
any text of the object or the array will do.
-/

namespace Playout.Config

open JsonForm

/-- The configuration that has the given fields from `c` and the others as usual. -/
def onlyGiven (c : Config) (given : String → Bool) : Config where
  audioQueueThreshold :=
    if given "audio_queue_threshold" then c.audioQueueThreshold else standard.audioQueueThreshold
  idleInterval := if given "idle_interval" then c.idleInterval else standard.idleInterval
  stopPollInterval := if given "stop_poll_interval" then c.stopPollInterval
    else standard.stopPollInterval
  audioDrainPollInterval :=
    if given "audio_drain_poll_interval" then c.audioDrainPollInterval
      else standard.audioDrainPollInterval
  audioDrainTimeout :=
    if given "audio_drain_timeout" then c.audioDrainTimeout else standard.audioDrainTimeout
  defaultDecoder := if given "default_decoder" then c.defaultDecoder else standard.defaultDecoder
  defaultAudioSink := if given "default_audio_sink" then c.defaultAudioSink
    else standard.defaultAudioSink

def written (c : Config) : List (String × Json) :=
  fieldNames.zip c.fieldValues

theorem optional_ite {α : Type} [JsonForm α] [Lawful α] (default a : α) (given : Bool) :
    optional default (if given then some (encode a) else none) =
      some (if given then a else default) := by
  cases given with
  | true => exact optional_encode default a
  | false => rfl

/-- The members that are given decide the configuration. -/
theorem decode_of_selected {j : Json} {c : Config} {given : String → Bool}
    (h : j.members? fieldNames = some (Json.selected c.written given)) :
    decode j = some (c.onlyGiven given) := by
  simp only [decode, h]
  simp [Json.selected, written, fieldNames, fieldValues, optional_ite, onlyGiven]

theorem decode_eq_none {j : Json} (h : j.members? fieldNames = none) :
    (decode j : Option Config) = none := by
  simp [decode, h]

/-- Any text of an object with some of the fields of a configuration, in any order and among
unknown fields, is read as the configuration that has these fields and is otherwise as usual; an
array of the first values is read as an object with the first fields; and no object that gives a
field twice is read. -/
theorem partial_read (c : Config) :
    (∀ (given : String → Bool) (fields : List (String × Json)) (s : String),
      Json.Holds fieldNames (c.written.filter fun f => given f.1) fields →
      (Json.record fields).Spells s.toList → read? s = some (c.onlyGiven given)) ∧
    (∀ (k : Nat) (fields : List (String × Json)) (s t : String),
      (Json.array (c.fieldValues.take k)).Spells s.toList →
      Json.Holds fieldNames (c.written.take k) fields → (Json.record fields).Spells t.toList →
      read? s = some (c.onlyGiven (fieldNames.take k).contains) ∧
        (read? s : Option Config) = read? t) ∧
    ∀ (name : String) (fields : List (Option String × Json)) (s : String), name ∈ fieldNames →
      2 ≤ fields.countP (fun f => f.1 == some name) → (Json.object fields).Spells s.toList →
      (read? s : Option Config) = none := by
  have hobject (given : String → Bool) (fields : List (String × Json)) (s : String)
      (hholds : Json.Holds fieldNames (c.written.filter fun f => given f.1) fields)
      (hspells : (Json.record fields).Spells s.toList) : read? s = some (c.onlyGiven given) := by
    rw [read?_eq_decode hspells]
    exact decode_of_selected (Json.members?_record given (by decide) rfl hholds)
  refine ⟨hobject, ?_, ?_⟩
  · intro k fields s t harray hholds hspells
    have hread : read? s = some (c.onlyGiven (fieldNames.take k).contains) := by
      rw [read?_eq_decode harray]
      exact decode_of_selected (Json.members?_take (by decide) rfl k)
    refine ⟨hread, ?_⟩
    rw [written, Json.take_zip (by decide)] at hholds
    rw [hread, hobject _ fields t hholds hspells]
  · intro name fields s hname htwice hspells
    rw [read?_eq_decode hspells]
    exact decode_eq_none (Json.members?_twice hname htwice)

def adjusted : Config :=
  { standard with audioQueueThreshold := 4, defaultDecoder := "x" }

def adjustedFields : List (String × Json) :=
  [("default_decoder", .text "x"), ("zoom", .array [.natural 1, .null]),
    ("audio_queue_threshold", .natural 4)]

theorem partial_read_adjusted :
    read? " \x7b\"default_decoder\":\"x\",\"zoom\":[1,null],\"audio_queue_threshold\":4\x7d" =
      some adjusted ∧
      (read? "[4]" : Option Config) = read? "\x7b\"audio_queue_threshold\":4\x7d" ∧
      (read? "\x7b\"default_decoder\":\"x\",\"default_decoder\":\"y\"\x7d" : Option Config) =
        none := by
  have hfour : (Json.natural 4).Spells (Json.natural 4).render := .natural 4
  have hzoom : (Json.array [.natural 1, .null]).Spells (Json.array [.natural 1, .null]).render := by
    apply Json.spells_array
    rintro j (_ | ⟨_, _ | ⟨_, ⟨⟩⟩⟩)
    · exact .natural 1
    · exact .null
  have hfields : (Json.record adjustedFields).Spells (Json.record adjustedFields).render := by
    apply Json.spells_record
    simp [adjustedFields, Json.spells_text, hzoom, hfour]
  have hfirst : (Json.record [("audio_queue_threshold", .natural 4)]).Spells
      (Json.record [("audio_queue_threshold", .natural 4)]).render :=
    Json.spells_record (by simp [hfour])
  have hitems : (Json.array [.natural 4]).Spells (Json.array [.natural 4]).render :=
    Json.spells_array (by simp [hfour])
  have htwice :
      (Json.record [("default_decoder", .text "x"), ("default_decoder", .text "y")]).Spells
      (Json.record [("default_decoder", .text "x"), ("default_decoder", .text "y")]).render :=
    Json.spells_record (by simp [Json.spells_text])
  have hholds : Json.Holds fieldNames
      [("audio_queue_threshold", .natural 4), ("default_decoder", .text "x")]
      adjustedFields := .swap _ _ []
  have hblanks :=
    Json.Spells.blanks (show Json.Blank [' '] from rfl) (show Json.Blank [] from rfl) hfields
  refine ⟨?_, ?_, ?_⟩
  · exact (partial_read adjusted).1
      (fun name => name == "default_decoder" || name == "audio_queue_threshold")
      adjustedFields
        " \x7b\"default_decoder\":\"x\",\"zoom\":[1,null],\"audio_queue_threshold\":4\x7d" hholds
        hblanks
  · exact ((partial_read adjusted).2.1 1 [("audio_queue_threshold", .natural 4)] "[4]"
      "\x7b\"audio_queue_threshold\":4\x7d" hitems (.refl _) hfirst).2
  · exact (partial_read adjusted).2.2 "default_decoder" _
      "\x7b\"default_decoder\":\"x\",\"default_decoder\":\"y\"\x7d" (by decide) (by decide) htwice

end Playout.Config
