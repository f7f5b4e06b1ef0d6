import Playout.Proofs.Presentation.Tables

/-!
# The decoders of a presentation

Decoders are numbered in the order in which they are made. A load makes one at most, and a decoder
that was made is bound to one stream or has been destroyed: nothing else becomes of it, whoever does
what in which order.
-/

namespace Playout

variable {H : Platform}

namespace Effect

def made? : Effect H → Option Nat
  | .decoderMade n _ => some n
  | _ => none

def destroyed? : Effect H → Option Nat
  | .decoderDestroyed n _ => some n
  | _ => none

def madeIn (effects : List (Effect H)) : List Nat :=
  effects.filterMap (·.made?)

def destroyedIn (effects : List (Effect H)) : List Nat :=
  effects.filterMap (·.destroyed?)

variable {effects more : List (Effect H)}

@[simp] theorem madeIn_nil : madeIn ([] : List (Effect H)) = [] := rfl

@[simp] theorem destroyedIn_nil : destroyedIn ([] : List (Effect H)) = [] := rfl

@[simp] theorem madeIn_append : madeIn (effects ++ more) = madeIn effects ++ madeIn more :=
  List.filterMap_append

@[simp] theorem destroyedIn_append :
    destroyedIn (effects ++ more) = destroyedIn effects ++ destroyedIn more :=
  List.filterMap_append

/-- Effects that have nothing to do with decoders neither make nor destroy one. -/
theorem of_not_decoding (h : ∀ e ∈ effects, e.isDecoding = false) :
    madeIn effects = [] ∧ destroyedIn effects = [] := by
  constructor
  all_goals
    refine List.filterMap_eq_nil_iff.mpr fun e he => ?_
    have hother := h e he
    cases e <;> first | rfl | cases hother

end Effect

namespace Presentation

variable {c : Surroundings H} {x y z : Presentation H} {task : Task H} {place : Nat}
  {effects more : List (Effect H)} {d : Option (BoundDecoder H.Decoder)}

/-! ## Streams and their decoders -/

def slots (x : Presentation H) : List (Option (BoundDecoder H.Decoder)) :=
  x.streams.map (·.decoder)

def serials (x : Presentation H) : List Nat :=
  x.slots.filterMap (·.map (·.serial))

theorem boundDecoder?_eq (x : Presentation H) (place : Nat) :
    x.boundDecoder? place = x.slots[place]?.join := by
  rw [boundDecoder?, slots, List.getElem?_map]
  cases x.streams[place]? <;> rfl

theorem lt_of_boundDecoder? {d : BoundDecoder H.Decoder} (h : x.boundDecoder? place = some d) :
    place < x.slots.length := by
  rw [boundDecoder?_eq, Option.join_eq_some_iff] at h
  exact (List.getElem?_eq_some_iff.mp h).1

theorem mem_serials {n : Nat} :
    n ∈ x.serials ↔ ∃ place d, x.boundDecoder? place = some d ∧ d.serial = n := by
  simp only [boundDecoder?_eq, Option.join_eq_some_iff, serials]
  rw [List.mem_filterMap]
  constructor
  · rintro ⟨slot, hslot, hserial⟩
    obtain ⟨d, rfl, hd⟩ := Option.map_eq_some_iff.mp hserial
    obtain ⟨place, hplace⟩ := List.mem_iff_getElem?.mp hslot
    exact ⟨place, d, hplace, hd⟩
  · rintro ⟨place, d, hplace, hd⟩
    exact ⟨some d, List.mem_of_getElem? hplace, by simp [hd]⟩

/-- Different streams have different decoders, if no number occurs twice. -/
theorem place_eq_of_serial {other : Nat} {d e : BoundDecoder H.Decoder} (h : x.serials.Nodup)
    (hd : x.boundDecoder? place = some d) (he : x.boundDecoder? other = some e)
    (hserial : d.serial = e.serial) :
    place = other := by
  rw [boundDecoder?_eq, Option.join_eq_some_iff] at hd he
  obtain ⟨hplace, hd⟩ := List.getElem?_eq_some_iff.mp hd
  obtain ⟨hother, he⟩ := List.getElem?_eq_some_iff.mp he
  have hapart := List.pairwise_iff_getElem.mp (List.pairwise_filterMap.mp h)
  rcases Nat.lt_trichotomy place other with hlt | rfl | hlt
  · exact absurd hserial
      (hapart place other hplace hother hlt d.serial (by simp [hd]) e.serial (by simp [he]))
  · rfl
  · exact absurd hserial.symm
      (hapart other place hother hplace hlt e.serial (by simp [he]) d.serial (by simp [hd]))

theorem slots_bindDecoder (x : Presentation H) (place : Nat) (d : Option (BoundDecoder H.Decoder)) :
    (x.bindDecoder place d).slots = x.slots.set place d := by
  refine List.ext_getElem? fun i => ?_
  simp only [slots, bindDecoder, List.getElem?_map, List.getElem?_modify, List.getElem?_set,
    List.length_map]
  by_cases hi : place = i
  · subst hi
    cases hstream : x.streams[place]? with
    | none =>
        have hge := List.getElem?_eq_none_iff.mp hstream
        simp [Nat.not_lt.mpr hge]
    | some stream =>
        have hlt := (List.getElem?_eq_some_iff.mp hstream).1
        simp [hlt]
  · simp [hi]

theorem boundDecoder?_set (hslots : y.slots = x.slots.set place d) {other : Nat}
    (hother : other ≠ place) :
    y.boundDecoder? other = x.boundDecoder? other := by
  rw [boundDecoder?_eq, boundDecoder?_eq, hslots, List.getElem?_set_ne (Ne.symm hother)]

theorem serials_set (hslots : y.slots = x.slots.set place d)
    (hd : d.isSome → place < x.slots.length) :
    ∃ pre post, x.serials = pre ++ ((x.boundDecoder? place).map (·.serial)).toList ++ post ∧
      y.serials = pre ++ (d.map (·.serial)).toList ++ post := by
  by_cases hlt : place < x.slots.length
  · have hset := List.set_eq_take_append_cons_drop (l := x.slots) (i := place) (a := d)
    have hold : x.slots = x.slots.take place ++ x.slots[place] :: x.slots.drop (place + 1) := by
      simp
    refine ⟨(x.slots.take place).filterMap (·.map (·.serial)),
      (x.slots.drop (place + 1)).filterMap (·.map (·.serial)), ?_, ?_⟩
    · rw [boundDecoder?_eq, List.getElem?_eq_getElem hlt, serials]
      conv_lhs => rw [hold]
      cases x.slots[place] <;> simp
    · rw [serials, hslots, hset, if_pos hlt]
      cases d <;> simp
  · have hge := Nat.not_lt.mp hlt
    obtain rfl : d = none := by simpa using fun hsome => hlt (hd hsome)
    refine ⟨x.serials, [], ?_, ?_⟩
    · simp [boundDecoder?_eq, List.getElem?_eq_none hge]
    · simp [serials, hslots, List.set_eq_of_length_le hge]

/-! ## Effects that have nothing to do with decoders -/

theorem sinkCall_apart (sink : Option (BoundSink H.Sink)) (call : SinkCall) :
    ∀ e ∈ sinkCall sink call, e.isDecoding = false := by
  cases sink <;> simp [sinkCall, Effect.isDecoding]

theorem dropped_apart (samples : List (Sample H.Receiver)) :
    ∀ e ∈ dropped samples, e.isDecoding = false := by
  unfold dropped
  split <;> simp [Effect.isDecoding]

theorem select_apart {pacing : Pacing} {r? : Option (Schedule.Release H.Receiver)}
    (h : x.select c pacing = (r?, effects)) : ∀ e ∈ effects, e.isDecoding = false := by
  have hasked : ∀ e ∈ (x.depth? c).toList.map (@Effect.consulted H), e.isDecoding = false := by
    simp [Effect.isDecoding]
  cases pacing with
  | paced =>
      cases h
      split
      · exact hasked
      · simp
  | unpaced =>
      cases h
      simp

theorem openSink_apart {next : List (Task H)} (h : x.openSink c = y.going next effects) :
    ∀ e ∈ effects, e.isDecoding = false := by
  have hcalls : ∀ (n : Nat) (calls : List SinkCall), ∀ e ∈ calls.map (@Effect.sink H n),
      e.isDecoding = false := by
    simp [Effect.isDecoding]
  unfold openSink at h
  split at h
  · cases h
    simp
  · split at h
    · cases h
      simp
    · dsimp only at h
      split at h
      · cases h
        exact hcalls _ _
      · cases h
        exact fun e he => (List.mem_append.mp he).elim (hcalls _ _ e) (sinkCall_apart _ _ e)

/-! ## One task -/

/-- Decoders are numbered in the order in which they are made, and one that was in use or is made is
in use afterwards or is destroyed. A decoder never moves to another stream. -/
structure Balances (x : Presentation H) (effects : List (Effect H)) (y : Presentation H) :
    Prop where
  made : Effect.madeIn effects = List.range' x.decodersMade (Effect.madeIn effects).length
  counted : y.decodersMade = x.decodersMade + (Effect.madeIn effects).length
  kept : (Effect.madeIn effects ++ x.serials).Perm (Effect.destroyedIn effects ++ y.serials)
  decoder : ∀ place d, x.boundDecoder? place = some d →
    (∃ e, y.boundDecoder? place = some e ∧ e.serial = d.serial) ∨
      d.serial ∈ Effect.destroyedIn effects

namespace Balances

theorem trans (hxy : x.Balances effects y) (hyz : y.Balances more z) :
    x.Balances (effects ++ more) z where
  made := by
    rw [Effect.madeIn_append, List.length_append, hyz.made, hxy.made, hxy.counted]
    simp
  counted := by
    rw [hyz.counted, hxy.counted, Effect.madeIn_append, List.length_append, Nat.add_assoc]
  kept := by
    refine List.perm_iff_count.mpr fun n => ?_
    have hfirst := List.perm_iff_count.mp hxy.kept n
    have hsecond := List.perm_iff_count.mp hyz.kept n
    simp only [Effect.madeIn_append, Effect.destroyedIn_append,
      List.count_append] at hfirst hsecond ⊢
    omega
  decoder place d hd := by
    rw [Effect.destroyedIn_append, List.mem_append]
    rcases hxy.decoder place d hd with ⟨e, he, hserial⟩ | hgone
    · rw [← hserial]
      exact (hyz.decoder place e he).imp_right .inr
    · exact .inr (.inl hgone)

/-- The streams keep what is bound to them. Those that are new have nothing. -/
theorem of_kept (n : Nat) (hmade : y.decodersMade = x.decodersMade)
    (hslots : y.slots = x.slots ++ .replicate n none)
    (hother : ∀ e ∈ effects, e.isDecoding = false) : x.Balances effects y := by
  obtain ⟨hnone, hstay⟩ := Effect.of_not_decoding hother
  have hserials : y.serials = x.serials := by simp [serials, hslots, List.filterMap_append]
  refine ⟨by simp [hnone], by simp [hnone, hmade], by simp [hnone, hstay, hserials],
    fun place d hd => ?_⟩
  have hlt := lt_of_boundDecoder? hd
  refine .inl ⟨d, ?_, rfl⟩
  rwa [boundDecoder?_eq, hslots, List.getElem?_append_left hlt, ← boundDecoder?_eq]

theorem of_same (hmade : y.decodersMade = x.decodersMade) (hstreams : y.streams = x.streams)
    (hother : ∀ e ∈ effects, e.isDecoding = false) : x.Balances effects y :=
  of_kept 0 hmade (by simp [slots, hstreams]) hother

theorem refl (x : Presentation H) : x.Balances [] x :=
  of_same rfl rfl (by simp)

/-- One stream is given another decoder, or none, when so many have been made and these have
been destroyed. -/
theorem of_bind (n : Nat) {gone : List Nat} (hslots : y.slots = x.slots.set place d)
    (hd : d.isSome → place < x.slots.length)
    (hmade : Effect.madeIn effects = List.range' x.decodersMade n)
    (hcounted : y.decodersMade = x.decodersMade + n) (hgone : Effect.destroyedIn effects = gone)
    (hkept : (List.range' x.decodersMade n ++ ((x.boundDecoder? place).map (·.serial)).toList).Perm
      (gone ++ (d.map (·.serial)).toList)) : x.Balances effects y where
  made := by rw [hmade, List.length_range']
  counted := by rw [hmade, List.length_range', hcounted]
  kept := by
    obtain ⟨pre, post, hx, hy⟩ := serials_set hslots hd
    rw [hx, hy, hmade, hgone]
    refine List.perm_iff_count.mpr fun k => ?_
    have hcount := List.perm_iff_count.mp hkept k
    simp only [List.count_append] at hcount ⊢
    omega
  decoder other e he := by
    by_cases hother : other = place
    · subst hother
      have hmem : e.serial ∈ gone ++ (d.map (·.serial)).toList := hkept.subset (by simp [he])
      rw [hgone]
      refine (List.mem_append.mp hmem).symm.imp_left fun hnew => ?_
      obtain ⟨f, rfl, hserial⟩ := Option.map_eq_some_iff.mp (Option.mem_toList.mp hnew)
      refine ⟨f, ?_, hserial⟩
      rw [boundDecoder?_eq, hslots, List.getElem?_set_self (hd rfl)]
      rfl
    · exact .inl ⟨e, (boundDecoder?_set hslots hother).trans he, rfl⟩

end Balances

theorem destroyed_serials (d : Option (BoundDecoder H.Decoder)) :
    Effect.madeIn (destroyed d) = [] ∧
      Effect.destroyedIn (destroyed d) = (d.map (·.serial)).toList := by
  cases d <;> exact ⟨rfl, rfl⟩

theorem slots_modify {f : Stream H.Decoder → Stream H.Decoder}
    (hy : y.streams = x.streams.modify place f)
    (hf : ∀ s, (f s).decoder = s.decoder) : y.slots = x.slots := by
  refine List.ext_getElem? fun i => ?_
  simp only [slots, hy, List.getElem?_map, List.getElem?_modify]
  cases x.streams[i]? with
  | none => rfl
  | some stream =>
      by_cases hi : place = i
      · simp [hi, hf]
      · simp [hi]

/-- Something else than its decoder has changed about a stream. -/
theorem Balances.of_modify {f : Stream H.Decoder → Stream H.Decoder}
    (hmade : y.decodersMade = x.decodersMade)
    (hy : y.streams = x.streams.modify place f) (hf : ∀ s, (f s).decoder = s.decoder) :
    x.Balances [] y := by
  refine .of_kept 0 hmade ?_ (by simp)
  rw [List.replicate_zero, List.append_nil]
  exact slots_modify hy hf

theorem release_balances (x : Presentation H) (place : Nat) :
    x.Balances (destroyed (x.boundDecoder? place)) (x.bindDecoder place none) := by
  obtain ⟨hmade, hgone⟩ := destroyed_serials (x.boundDecoder? place)
  exact .of_bind 0 (slots_bindDecoder x place none) (by simp) hmade rfl hgone (by simp)

theorem createStream_balances {s : StreamId} {move : Move H}
    (h : x.perform c (.createStream s) = .moves move) :
    x.Balances move.effects move.presentation := by
  simp only [perform, createStream] at h
  split at h
  · cases h
    exact .refl x
  · rename_i y hy
    cases h
    split at hy
    · cases hy
    · cases hy
      exact .of_kept 1 rfl (by simp [slots]) (by simp)

theorem forgetStream_balances {move : Move H}
    (h : x.perform c (.forgetStream place) = .moves move) :
    x.Balances move.effects move.presentation := by
  have hfewer : x.Balances []
      { x with streams := x.streams.modify place fun s => { s with holders := s.holders - 1 } } :=
    .of_modify rfl rfl fun _ => rfl
  simp only [perform, forgetStream] at h
  split at h
  · cases h
    exact hfewer
  · cases h
    exact hfewer.trans (release_balances _ place)

theorem through_balances {f : StreamId → Outcome H} {move : Move H}
    (h : x.throughHandle c place f = .moves move)
    (hf : ∀ s, f s = .moves move → x.Balances move.effects move.presentation) :
    x.Balances move.effects move.presentation := by
  unfold throughHandle at h
  split at h
  · exact hf _ h
  · cases h
    exact .refl x

/-- The decoder has another state afterwards, but it is the same one. -/
theorem push_balances {chunk : Chunk H.Receiver} {move : Move H}
    (h : x.perform c (.push place chunk) = .moves move) :
    x.Balances move.effects move.presentation := by
  simp only [perform] at h
  refine through_balances h fun s hs => ?_
  unfold decode at hs
  split at hs
  · cases hs
    exact .refl x
  · rename_i bound hbound
    have hbind : ∀ d, x.Balances [] (x.bindDecoder place (some { bound with decoder := d })) :=
      fun d =>
      .of_bind 0 (slots_bindDecoder x place _) (fun _ => lt_of_boundDecoder? hbound) rfl rfl rfl
        (by simp [hbound])
    split at hs <;> cases hs <;> exact hbind _

/-- Streams that nobody holds give up their decoders. -/
def unhold (s : Stream H.Decoder) : Stream H.Decoder :=
  if s.holders == 0 then { s with decoder := none } else s

/-- What is bound to the streams is bound to those that nobody holds, or stays. -/
theorem unheld_perm (streams : List (Stream H.Decoder)) :
    (streams.filterMap fun s => s.decoder.map (·.serial)).Perm
      (((streams.filter (·.holders == 0)).filterMap (·.decoder)).map (·.serial) ++
        (streams.map unhold).filterMap fun s => s.decoder.map (·.serial)) := by
  induction streams with
  | nil => exact .refl _
  | cons s streams ih =>
      obtain ⟨id, _ | d, holders⟩ := s
      · by_cases hheld : holders = 0 <;> simpa [hheld, unhold] using ih
      · by_cases hheld : holders = 0
        · simpa [hheld, unhold] using ih
        · simpa [hheld, unhold] using (ih.cons d.serial).trans List.perm_middle.symm

theorem serials_streams (x : Presentation H) :
    x.serials = x.streams.filterMap fun s => s.decoder.map (·.serial) := by
  rw [serials, slots, List.filterMap_map]
  rfl

theorem reclaim_effects (x : Presentation H) (samples : List (Sample H.Receiver)) :
    Effect.madeIn (dropped samples ++ sinkCall x.sink .release ++
        x.unheldDecoders.flatMap fun d => destroyed (some d)) = [] ∧
      Effect.destroyedIn (dropped samples ++ sinkCall x.sink .release ++
        x.unheldDecoders.flatMap fun d => destroyed (some d)) =
          x.unheldDecoders.map (·.serial) := by
  obtain ⟨hmade, hgone⟩ :=
    Effect.of_not_decoding fun e (he : e ∈ dropped samples ++ sinkCall x.sink .release) =>
    (List.mem_append.mp he).elim (dropped_apart samples e) (sinkCall_apart x.sink .release e)
  rw [Effect.madeIn_append, Effect.destroyedIn_append, hmade, hgone]
  induction x.unheldDecoders with
  | nil => exact ⟨rfl, rfl⟩
  | cons d ds ih =>
      rw [List.flatMap_cons, Effect.madeIn_append, Effect.destroyedIn_append]
      exact ⟨ih.1, congrArg (d.serial :: ·) ih.2⟩

theorem reclaim_balances {move : Move H} (h : x.perform c .reclaim = .moves move) :
    x.Balances move.effects move.presentation := by
  simp only [perform] at h
  split at h
  · cases h
    exact .refl x
  · cases h
    obtain ⟨hmade, hgone⟩ := reclaim_effects x x.detachStreams.discarded
    refine ⟨by rw [hmade]; rfl, by rw [hmade]; rfl, ?_, fun place d hd => ?_⟩
    · rw [hmade, hgone, serials_streams, serials_streams]
      exact unheld_perm x.streams
    · rw [hgone]
      obtain ⟨stream, hstream, hd⟩ := Option.bind_eq_some_iff.mp hd
      by_cases hheld : stream.holders = 0
      · refine .inr (List.mem_map_of_mem ?_)
        simp only [unheldDecoders, List.mem_filterMap, List.mem_filter]
        exact ⟨stream, ⟨List.mem_of_getElem? hstream, by simpa using hheld⟩, hd⟩
      · exact .inl ⟨d, by simp [boundDecoder?, hstream, hheld, hd], rfl⟩

/-- What comes of a load: no decoder is made, or one that refuses the format and is destroyed, or
one that is in use from then on. What was bound before is destroyed in each case, and last. -/
inductive Loads (x : Presentation H) (place : Nat) :
    Loading H.Decoder → List (Effect H) → Option (Except MediaError Unit) → Presentation H →
      Prop where
  | failed {e} {y : Presentation H} : y.slots = x.slots.set place none →
      y.decodersMade = x.decodersMade →
      Loads x place (.failed e) (destroyed (x.boundDecoder? place)) (some (.error e)) y
  | refused {d : H.Decoder} {e} {y : Presentation H} : y.slots = x.slots.set place none →
      y.decodersMade = x.decodersMade + 1 →
      Loads x place (.refused d e)
        (.decoderMade x.decodersMade d :: .decoderDestroyed x.decodersMade d ::
          destroyed (x.boundDecoder? place))
        (some (.error e)) y
  | ready {d : H.Decoder} {y : Presentation H} : y.slots =
      x.slots.set place (some ⟨x.decodersMade, d⟩) →
      y.decodersMade = x.decodersMade + 1 →
      Loads x place (.ready d) (.decoderMade x.decodersMade d :: destroyed (x.boundDecoder? place))
        (some (.ok ())) y

theorem loadDecoder_loads {name : String} {media : MediaType} {move : Move H}
    (h : x.perform c (.loadDecoder place name media) = .moves move) :
    Loads x place (c.decoders.load H.decoderOps c.answers.createDecoder name media) move.effects
      move.result
      move.presentation := by
  simp only [perform, loadDecoder] at h
  cases hload : c.decoders.load H.decoderOps c.answers.createDecoder name media <;>
    rw [hload] at h <;> cases h
  · exact .failed (slots_bindDecoder ..) rfl
  · exact .refused (slots_bindDecoder ..) rfl
  · exact .ready (slots_bindDecoder ..) rfl

/-- A load reaches a stream, so that what it makes is not lost. -/
theorem Loads.balances {loading : Loading H.Decoder} {result : Option (Except MediaError Unit)}
    (h : Loads x place loading effects result y) (hplace : place < x.slots.length) :
    x.Balances effects y := by
  obtain ⟨hmade, hgone⟩ := destroyed_serials (x.boundDecoder? place)
  have hnew := congrArg (x.decodersMade :: ·) hmade
  cases h with
  | failed hslots hcounted =>
      exact .of_bind 0 hslots (by simp) hmade hcounted hgone List.perm_append_comm
  | refused hslots hcounted =>
      have hrefused := congrArg (x.decodersMade :: ·) hgone
      exact .of_bind 1 hslots (by simp) hnew hcounted hrefused (by simp)
  | ready hslots hcounted =>
      exact .of_bind 1 hslots (fun _ => hplace) hnew hcounted hgone List.perm_append_comm

theorem Balances.of_release {pacing : Pacing} {r : Schedule.Release H.Receiver}
    (h : x.select c pacing = (some r, effects)) :
    x.Balances (effects ++ [.released r.selected]) (x.afterRelease r) := by
  refine .of_same rfl rfl fun e he => (List.mem_append.mp he).elim (select_apart h e) fun hmem => ?_
  rw [List.mem_singleton.mp hmem]
  rfl

theorem Balances.of_advance {s : Standing H} {s? : Option (Standing H)}
    (h : Advance c x s y effects s?) :
    x.Balances effects y := by
  cases h with
  | openSink hopen => exact .of_same rfl rfl (openSink_apart hopen)
  | nothingReady hselect | nothingLeft hselect => exact .of_same rfl rfl (select_apart hselect)
  | choose hselect | drain hselect => exact .of_release hselect
  | frame =>
      rw [beginFrame_snd]
      exact .of_same rfl rfl (by simp)
  | releaseSink => exact .of_same rfl rfl (sinkCall_apart _ _)
  | pollLast => exact .of_same rfl rfl (by simp [Effect.isDecoding])
  | _ => exact .of_same rfl rfl (by simp [Effect.isDecoding])

theorem aside_balances {move : Move H} (hfree : task.isDuty = false)
    (hplace : ∀ place, task.loadsFor place → place < x.slots.length)
    (h : x.perform c task = .moves move) :
    x.Balances move.effects move.presentation := by
  cases task with
  | createStream s => exact createStream_balances h
  | holdStream place =>
      cases h
      exact .of_modify rfl rfl fun _ => rfl
  | forgetStream place => exact forgetStream_balances h
  | detachStream s =>
      simp only [perform, detachStream] at h
      split at h
      · cases h
        exact .refl x
      · rename_i d hd
        cases h
        split at hd
        · cases hd
        · cases hd
          exact .of_same rfl rfl (dropped_apart _)
  | detachStreams =>
      cases h
      exact .of_same rfl rfl (dropped_apart _)
  | releaseDecoders places =>
      cases places with
      | nil =>
          cases h
          exact .refl x
      | cons place places =>
          cases h
          exact release_balances x place
  | setFormat place decoder media =>
      simp only [perform] at h
      refine through_balances h fun s hs => ?_
      split at hs
      · cases hs
        exact .refl x
      · rename_i y hy
        obtain ⟨pre, q, post, -, -, -, rfl⟩ := configure_eq_ok hy
        cases hs
        exact .of_same rfl rfl (by simp)
  | loadDecoder place name media =>
      exact (loadDecoder_loads h).balances (hplace place (by simp [Task.loadsFor]))
  | push place chunk => exact push_balances h
  | enqueue sample =>
      simp only [perform] at h
      split at h
      · cases h
        exact .refl x
      · rename_i y hy
        obtain ⟨pre, q, post, -, -, -, rfl⟩ := enqueue_eq_ok hy
        cases h
        exact .of_same rfl rfl (by simp [Effect.isDecoding])
  | endStream place =>
      simp only [perform] at h
      refine through_balances h fun s hs => ?_
      split at hs
      · cases hs
        exact .refl x
      · rename_i y hy
        obtain ⟨pre, q, post, -, -, -, rfl⟩ := endStream_eq_ok hy
        cases hs
        exact .of_same rfl rfl (by simp)
  | reclaim => exact reclaim_balances h
  | start =>
      rcases start_cases h with ⟨-, rfl⟩ | ⟨text, -, -, rfl⟩ | ⟨-, rfl⟩ <;>
        exact .of_same rfl rfl (by simp)
  | inspectThread =>
      simp only [perform] at h
      split at h <;> cases h <;> exact .of_same rfl rfl (by simp)
  | awaitStopped thread | join thread =>
      simp only [perform] at h
      split at h <;> cases h
      exact .refl x
  | repaint =>
      simp only [perform, takeLastRendered] at h
      split at h <;> cases h <;> exact .of_same rfl rfl (by simp)
  | clearQueues =>
      cases h
      exact .of_same rfl rfl (dropped_apart _)
  | flushSink =>
      cases h
      exact .of_same rfl rfl (sinkCall_apart _ _)
  | offer event =>
      cases h
      exact .of_same rfl rfl (by simp [Effect.isDecoding])
  | setGeometry | setAudioDevice | keepThread | requestExit | letGo | callback | finish =>
      cases h
      exact .of_same rfl rfl (by simp)
  | _ => cases hfree

/-- What any task does to the decoders, whoever does it. A load has to reach a stream. -/
theorem perform_balances {move : Move H}
    (hplace : ∀ place, task.loadsFor place → place < x.slots.length)
    (h : x.perform c task = .moves move) : x.Balances move.effects move.presentation := by
  cases perform_feat h with
  | aside hfree => exact aside_balances hfree hplace h
  | duty hadv => exact .of_advance hadv
  | nothing hselect => exact .of_same rfl rfl (select_apart hselect)
  | tick hselect => exact .of_release hselect
  | start => exact .of_same rfl rfl (by simp)
  | offer => exact .of_same rfl rfl (by simp [Effect.isDecoding])

/-- A load comes of a negotiation through a handle on its stream. -/
theorem setFormat_of_loads {move : Move H} {t : Task H} (hfree : task.isDuty = false)
    (hstart : task = .start → x.launches c = false) (h : x.perform c task = .moves move)
    (ht : t ∈ move.next)
    (hload : t.loadsFor place) : ∃ decoder media, task = .setFormat place decoder media := by
  have hconduct := h ▸ perform_conduct (c := c) hfree hstart
  generalize ho : Outcome.moves move = o at hconduct
  cases hconduct with
  | @setFormat other decoder media =>
      cases ho
      rw [List.mem_singleton.mp ht] at hload
      obtain rfl : other = place := by simpa [Task.loadsFor] using hload
      exact ⟨decoder, media, rfl⟩
  | waits => cases ho
  | stopped =>
      cases ho
      obtain ⟨thread, -, rfl⟩ := List.mem_map.mp ht
      cases hload
  | _ =>
      have hnone : ∀ u ∈ move.next, u.loadsFor place = false := by
        cases ho
        simp [Task.loadsFor]
      rw [hnone t ht] at hload
      cases hload

/-- A negotiation that goes on to a load has found the presentation, the stream and its
registration. -/
theorem setFormat_cases {decoder : Option String} {media : MediaType} {move : Move H}
    (h : x.perform c (.setFormat place decoder media) = .moves move) :
    (∃ e, move.result = some (.error e) ∧ move.next = [] ∧ move.effects = [] ∧
      move.presentation = x) ∨
      (x.numberAt? place).isSome ∧ move.result = none ∧ move.effects = [] ∧
        move.presentation.streams = x.streams ∧
        move.presentation.decodersMade = x.decodersMade ∧
        move.next = [.loadDecoder place (decoder.getD c.config.defaultDecoder) media] := by
  simp only [perform, throughHandle] at h
  split at h
  · rename_i stream _ hstream
    split at h
    · cases h
      exact .inl ⟨_, rfl, rfl, rfl, rfl⟩
    · rename_i y hy
      obtain ⟨pre, q, post, -, -, -, rfl⟩ := configure_eq_ok hy
      cases h
      exact .inr ⟨by simp [numberAt?, hstream], rfl, rfl, rfl, rfl, rfl⟩
  · cases h
    exact .inl ⟨_, rfl, rfl, rfl, rfl⟩

end Presentation

end Playout
