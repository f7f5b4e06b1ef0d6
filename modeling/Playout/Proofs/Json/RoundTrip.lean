import Playout.Config
import Playout.Format
import Playout.Identity
import Playout.Playback.State
import Playout.Proofs.Identity
import Playout.Proofs.Json.Members
import Playout.Proofs.Json.Reading
import Playout.Rect

/-!
# What is written is read back

A form is lawful if the compact form of a value is among the texts of its JSON form, and the JSON
form leads back to the value. Every form here is lawful: the small ones by what they are made of,
the records member by member. So whatever is written is read back as the value it was written from,
and no two values are written alike.
-/

namespace Playout

namespace JsonForm

class Lawful (α : Type) [JsonForm α] : Prop where
  decode_encode (a : α) : decode (encode a) = some a
  spells (a : α) : (encode a).Spells (encode a).render

/-- Whichever text of a JSON value is read, it is the value that is decoded. -/
theorem read?_eq_decode {α : Type} [JsonForm α] {j : Json} {s : String} (h : j.Spells s.toList) :
    (read? s : Option α) = decode j := by
  rw [read?, Json.read?_of_spells h, Option.bind_some]

section

variable {α : Type} [JsonForm α] [Lawful α]

theorem read?_write (a : α) : read? (write a) = some a := by
  have hspells : (encode a).Spells (write a).toList := by
    rw [write, String.toList_ofList]
    exact Lawful.spells a
  rw [read?_eq_decode hspells, Lawful.decode_encode]

theorem write_injective : Function.Injective (write : α → String) := by
  intro a b h
  have hread := read?_write a
  rw [h, read?_write b] at hread
  exact (Option.some.inj hread).symm

@[simp]
theorem required_encode (a : α) : required (some (encode a)) = some a :=
  Lawful.decode_encode a

@[simp]
theorem optional_encode (default a : α) : optional default (some (encode a)) = some a :=
  Lawful.decode_encode a

end

/-! ## Numbers, strings and lists -/

theorem decodeNat_natural {n bound : Nat} (h : n < bound) :
    decodeNat bound (.natural n) = some n := by
  simp [decodeNat, h]

instance : Lawful UInt8 where
  decode_encode n := by simp [decode, encode, decodeNat_natural n.toNat_lt_size]
  spells n := .natural n.toNat

instance : Lawful UInt32 where
  decode_encode n := by simp [decode, encode, decodeNat_natural n.toNat_lt_size]
  spells n := .natural n.toNat

instance : Lawful UInt64 where
  decode_encode n := by simp [decode, encode, decodeNat_natural n.toNat_lt_size]
  spells n := .natural n.toNat

instance : Lawful String where
  decode_encode _ := rfl
  spells s := Json.spells_text s

instance : Lawful (Option String) where
  decode_encode
    | none => rfl
    | some _ => rfl
  spells
    | none => .null
    | some s => Json.spells_text s

theorem mapM_decode {α : Type} [JsonForm α] [Lawful α] (as : List α) :
    (as.map encode).mapM (decode (α := α)) = some as := by
  induction as with
  | nil => rfl
  | cons a as ih => simp [ih, Lawful.decode_encode]

instance {α : Type} [JsonForm α] [Lawful α] : Lawful (List α) where
  decode_encode as := mapM_decode as
  spells as := Json.spells_array fun j hj => by
    obtain ⟨a, -, rfl⟩ := List.mem_map.mp hj
    exact Lawful.spells a

end JsonForm

open JsonForm

/-! ## Choices -/

instance : Lawful MajorType where
  decode_encode t := by cases t <;> rfl
  spells t := Json.spells_text t.name

instance : Lawful SubType where
  decode_encode t := by cases t <;> rfl
  spells t := Json.spells_text t.name

instance : Lawful PixelFormat where
  decode_encode f := by cases f <;> rfl
  spells f := Json.spells_text f.name

instance : Lawful PlaybackState where
  decode_encode s := by cases s <;> rfl
  spells s := Json.spells_text s.name

/-! ## Records -/

instance : Lawful Rect where
  decode_encode r := by
    have h : (encode r).members? ["x", "y", "width", "height"] = _ :=
      @Json.members?_zip _ [encode r.x, encode r.y, encode r.width, encode r.height] (by decide) rfl
    simp [decode, h]
  spells r := Json.spells_record (by simp [Lawful.spells])

instance : Lawful Fraction where
  decode_encode f := by
    have h : (encode f).members? ["numerator", "denominator"] = _ :=
      @Json.members?_zip _ [encode f.numerator, encode f.denominator] (by decide) rfl
    simp [decode, h]
  spells f := Json.spells_record (by simp [Lawful.spells])

instance : Lawful AudioFormat where
  decode_encode f := by
    have h : (encode f).members? ["sample_rate", "channels", "bits_per_sample"] = _ :=
      @Json.members?_zip _ [encode f.sampleRate, encode f.channels, encode f.bitsPerSample]
        (by decide) rfl
    simp [decode, h]
  spells f := Json.spells_record (by simp [Lawful.spells])

instance : Lawful MediaType where
  decode_encode m := by
    have h : (encode m).members? ["major_type", "sub_type", "width", "height", "bit_rate",
        "samples_per_second", "channels", "bits_per_sample", "block_align", "extra_data"] = _ :=
      @Json.members?_zip _ [encode m.majorType, encode m.subType, encode m.width, encode m.height,
        encode m.bitRate, encode m.samplesPerSecond, encode m.channels, encode m.bitsPerSample,
        encode m.blockAlign, encode m.extraData] (by decide) rfl
    simp [decode, h]
  spells m := Json.spells_record (by simp [Lawful.spells])

theorem Json.exactMembers?_zip {names : List String} {values : List Json} (hnodup : names.Nodup)
    (hlen : names.length = values.length) :
    (record (names.zip values)).exactMembers? names = some (values.map some) := by
  have hnames : ∀ f ∈ names.zip values, f.1 ∈ names := fun f hf => (List.of_mem_zip hf).1
  have hall : ((names.zip values).map fun f => (some f.1, f.2)).all
      (fun f => f.1.any names.contains) = true := by
    simpa using hnames
  rw [← members?_zip hnodup hlen]
  exact if_pos hall

namespace Duration

theorem seconds_lt (d : Duration) : d.seconds < UInt64.size :=
  Nat.div_lt_of_lt_mul (by rw [Nat.mul_comm]; exact d.nanos_lt)

theorem subseconds_lt (d : Duration) : d.subseconds < UInt32.size :=
  Nat.lt_trans (Nat.mod_lt _ (by decide)) (by decide)

theorem ofNanos?_parts (d : Duration) :
    ofNanos? (d.seconds * nanosPerSecond + d.subseconds) = some d := by
  have hsum : d.seconds * nanosPerSecond + d.subseconds = d.nanos :=
    Nat.div_add_mod' d.nanos nanosPerSecond
  rw [hsum]
  exact dif_pos d.nanos_lt

/-- A duration is decoded from its parts. They are put together by name, for the count of
nanoseconds of a second is too large to be unfolded. -/
theorem decode_of_members {j secs nanos : Json} {n : UInt64} {k : UInt32}
    (h : j.exactMembers? ["secs", "nanos"] = some [some secs, some nanos])
    (hsecs : required (some secs) = some n) (hnanos : required (some nanos) = some k) :
    (decode j : Option Duration) = ofNanos? (n.toNat * nanosPerSecond + k.toNat) := by
  have hdecode : (decode j : Option Duration) = (required (some secs)).bind fun n : UInt64 =>
      (required (some nanos)).bind fun k : UInt32 =>
        ofNanos? (n.toNat * nanosPerSecond + k.toNat) := by
    simp only [decode, h, Option.bind_eq_bind]
  rw [hdecode, hsecs, hnanos]
  exact (Option.bind_some ..).trans (Option.bind_some ..)

end Duration

instance : Lawful Duration where
  decode_encode d := by
    have h : (encode d).exactMembers? ["secs", "nanos"] = _ :=
      @Json.exactMembers?_zip _ [.natural d.seconds, .natural d.subseconds] (by decide) rfl
    have hsecs : (required (some (.natural d.seconds)) : Option UInt64) =
        some (.ofNat d.seconds) := by
      simp [required, decode, decodeNat_natural d.seconds_lt]
    have hnanos : (required (some (.natural d.subseconds)) : Option UInt32) =
        some (.ofNat d.subseconds) := by
      simp [required, decode, decodeNat_natural d.subseconds_lt]
    rw [Duration.decode_of_members h hsecs hnanos, UInt64.toNat_ofNat_of_lt' d.seconds_lt,
      UInt32.toNat_ofNat_of_lt' d.subseconds_lt, d.ofNanos?_parts]
  spells d := Json.spells_record (by
    intro f hf
    simp only [List.mem_cons, List.not_mem_nil, or_false] at hf
    obtain rfl | rfl := hf <;> exact .natural _)

instance : Lawful Config where
  decode_encode c := by
    have h : (encode c).members? Config.fieldNames = _ :=
      @Json.members?_zip _ c.fieldValues (by decide) rfl
    simp [decode, h, Config.fieldValues]
  spells c := Json.spells_record (by simp [Config.fieldNames, Config.fieldValues, Lawful.spells])

/-! ## Identities -/

instance : Lawful PresentationId where
  decode_encode p := by
    have h := p.ofChars?_chars
    simpa [decode, encode, Json.text, PresentationId.ofText?, PresentationId.text] using h
  spells p := Json.spells_text p.text

/-! ## All of them -/

/-- What is written of a value reads back as the value, and different values are written
differently. -/
def RoundTrips (α : Type) [JsonForm α] : Prop :=
  ∀ a : α, read? (write a) = some a ∧ ∀ b : α, a ≠ b → write a ≠ write b

theorem roundTrips_of_lawful (α : Type) [JsonForm α] [Lawful α] : RoundTrips α :=
  fun a => ⟨read?_write a, fun _ hne h => hne (write_injective h)⟩

/-- Configurations, rectangles, identities, formats and states survive being written and read. -/
theorem forms_round_trip :
    RoundTrips Config ∧ RoundTrips Rect ∧ RoundTrips PresentationId ∧ RoundTrips MajorType ∧
      RoundTrips SubType ∧ RoundTrips Fraction ∧ RoundTrips MediaType ∧ RoundTrips AudioFormat ∧
      RoundTrips PixelFormat ∧ RoundTrips PlaybackState := by
  refine ⟨?_, ?_, ?_, ?_, ?_, ?_, ?_, ?_, ?_, ?_⟩
  all_goals exact roundTrips_of_lawful _

end Playout
