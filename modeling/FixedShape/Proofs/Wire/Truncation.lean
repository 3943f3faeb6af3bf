/-
Module: FixedShape.Proofs.Wire.Truncation
Purpose: What is read of a message that is cut off. The fields that end before the cut are read as
  they were, and a cut inside a field is an error, so no field is taken for a shorter one.
-/
import FixedShape.Proofs.Wire.Concatenation

namespace FixedShape.Wire

open FixedShape.Outcome

/-! ### Parts that are taken as a whole -/

/-- The fault of bytes that end too soon. -/
def Fault.Short (fault : Fault) : Prop := fault = .truncated ∨ fault = .malformedVarint

section

variable {ε δ α β : Type} {short : ε → Prop} {shorter : δ → Prop}

/-- A reader takes a part of a buffer as a whole: it leaves what follows, and a part that is cut off
is too short for it. -/
structure Takes (short : ε → Prop) (reader : Bytes → Except ε (α × Bytes)) (part : Bytes)
    (value : α) : Prop where
  whole : ∀ behind, reader (part ++ behind) = .ok (value, behind)
  cut : ∀ k < part.length, ∃ error, reader (part.take k) = .error error ∧ short error

variable {first : Bytes → Except ε (α × Bytes)} {reader : Bytes → Except δ (β × Bytes)}
  {part : Bytes} {value : α} {result : β}

/-- A reader that succeeds and fails with another one. -/
theorem Takes.through (h : Takes short first part value)
    (hok : ∀ buffer rest, first buffer = .ok (value, rest) → reader buffer = .ok (result, rest))
    (hshort : ∀ buffer error, first buffer = .error error → short error →
      ∃ other, reader buffer = .error other ∧ shorter other) :
    Takes shorter reader part result where
  whole behind := hok _ _ (h.whole behind)
  cut k hk := by
    obtain ⟨error, herror, hcut⟩ := h.cut k hk
    exact hshort _ _ herror hcut

theorem Takes.map (see : α → β) (h : Takes short first part value) :
    Takes short (fun buffer => (first buffer).map fun read => (see read.1, read.2)) part
      (see value) := by
  refine h.through (fun buffer rest hread => by rw [hread]; rfl) ?_
  exact fun buffer error hread hshort => ⟨error, by rw [hread]; rfl, hshort⟩

/-- A reader that needs no bytes. -/
theorem takes_nil (value : α) : Takes short (fun buffer => .ok (value, buffer)) [] value where
  whole _ := rfl
  cut k hk := absurd hk (Nat.not_lt_zero k)

/-- A reader of two parts in a row, the second of which may be read in a way that depends on the
first. -/
theorem Takes.bind {next : Bytes → Except δ (β × Bytes)} {other : Bytes}
    (h : Takes short first part value) (hnext : Takes shorter next other result)
    (hok : ∀ buffer rest, first buffer = .ok (value, rest) → reader buffer = next rest)
    (hshort : ∀ buffer error, first buffer = .error error → short error →
      ∃ other, reader buffer = .error other ∧ shorter other) :
    Takes shorter reader (part ++ other) result where
  whole behind := by
    rw [List.append_assoc, hok _ _ (h.whole (other ++ behind))]
    exact hnext.whole behind
  cut k hk := by
    rw [List.take_append]
    by_cases hinside : k < part.length
    · obtain ⟨error, herror, hcut⟩ := h.cut k hinside
      rw [Nat.sub_eq_zero_of_le (Nat.le_of_lt hinside), List.take_zero, List.append_nil]
      exact hshort _ _ herror hcut
    · rw [List.length_append] at hk
      rw [List.take_of_length_le (Nat.le_of_not_lt hinside), hok _ _ (h.whole _)]
      exact hnext.cut (k - part.length) (by omega)

end

/-! ### Varints -/

namespace Varint

theorem decodeWithin_nil (room : Nat) : decodeWithin room [] = .error .malformed := by
  cases room <;> rfl

/-- Only the bytes of a varint are looked at, and all of them are needed. -/
theorem decodeWithin_take {room : Nat} {bytes : Bytes} {value size : Nat}
    (h : decodeWithin room bytes = .ok (value, size)) (k : Nat) :
    decodeWithin room (bytes.take k) =
      if k < size then .error .malformed else .ok (value, size) := by
  induction room generalizing bytes value size k with
  | zero => cases h
  | succ room ih =>
      cases bytes with
      | nil => cases h
      | cons byte rest =>
          rw [decodeWithin] at h
          cases k with
          | zero =>
              have hpos : 0 < size := by
                split at h
                · split at h
                  · cases h
                  · cases h
                    exact Nat.one_pos
                · split at h
                  · cases h
                  · cases h
                    exact Nat.succ_pos _
              rw [List.take_zero, if_pos hpos, decodeWithin_nil]
          | succ k =>
              rw [List.take_succ_cons, decodeWithin]
              split at h
              · next hlast =>
                  rw [if_pos hlast]
                  split at h
                  · cases h
                  · next hfits =>
                      cases h
                      rw [if_neg hfits, if_neg (by omega)]
              · next hmore =>
                  rw [if_neg hmore]
                  split at h
                  · cases h
                  · next high size hrest =>
                      cases h
                      rw [ih hrest k]
                      by_cases hk : k < size
                      · rw [if_pos hk, if_pos (Nat.succ_lt_succ hk)]
                      · rw [if_neg hk, if_neg (fun hlt => hk (Nat.lt_of_succ_lt_succ hlt))]

/-- A varint is read off its bytes alone, and not off fewer. -/
theorem decode_take {bytes : Bytes} {value : UInt64} {size : Nat}
    (h : decode bytes = .ok (value, size)) :
    decode (bytes.take size) = .ok (value, size) ∧
      ∀ k < size, ∃ error, decode (bytes.take k) = .error error := by
  obtain ⟨hsize, hlength⟩ := length_le_of_decode h
  have hpos : 0 < size := Nat.lt_of_lt_of_le (length_encode_pos value) hsize
  have hne {k : Nat} (hk : 0 < k) : bytes.take k ≠ [] := by
    intro hnil
    rcases List.take_eq_nil_iff.mp hnil with hzero | hnone
    · omega
    · rw [hnone] at hlength
      exact absurd hlength (by simpa using Nat.ne_of_gt hpos)
  have hread : (decodeWithin maxSize bytes).map (fun read => (UInt64.ofNat read.1, read.2)) =
      .ok (value, size) := by
    rw [← decode_of_ne_nil, h]
    rintro rfl
    cases h
  obtain ⟨⟨number, _⟩, hwithin, heq⟩ := map_eq_ok.mp hread
  cases heq
  constructor
  · rw [decode_of_ne_nil (hne hpos), decodeWithin_take hwithin, if_neg (Nat.lt_irrefl _)]
    rfl
  · intro k hk
    cases k with
    | zero => exact ⟨.empty, rfl⟩
    | succ k =>
        refine ⟨.malformed, ?_⟩
        rw [decode_of_ne_nil (hne (Nat.succ_pos k)), decodeWithin_take hwithin, if_pos hk]
        rfl

theorem Error.short_fault (error : Error) : error.fault.Short := by
  cases error with
  | empty => exact Or.inl rfl
  | malformed => exact Or.inr rfl

end Varint

namespace Field

variable {context : Context} {buffer rest : Bytes}

/-! ### Fields -/

theorem takes_takeVarint {value : UInt64} (h : takeVarint buffer = .ok (value, rest)) :
    ∃ part, buffer = part ++ rest ∧ Takes Fault.Short takeVarint part value := by
  rw [takeVarint] at h
  split at h
  · cases h
  · next size hread =>
      cases h
      obtain ⟨_, hsize⟩ := Varint.length_le_of_decode hread
      obtain ⟨hwhole, hcut⟩ := Varint.decode_take hread
      have hlength : (buffer.take size).length = size := List.length_take_of_le hsize
      refine ⟨buffer.take size, (List.take_append_drop size buffer).symm, ?_, ?_⟩
      · intro behind
        have htaken : takeVarint (buffer.take size) = .ok (value, []) := by
          rw [takeVarint, hwhole]
          exact congrArg (fun rest => Except.ok (value, rest))
            (List.drop_eq_nil_of_le (Nat.le_of_eq hlength))
        exact takeVarint_behind htaken behind
      · intro k hk
        rw [hlength] at hk
        obtain ⟨error, herror⟩ := hcut k hk
        refine ⟨error.fault, ?_, error.short_fault⟩
        rw [List.take_take, Nat.min_eq_left (Nat.le_of_lt hk), takeVarint, herror]

theorem takes_takeBytes {count : Nat} {head : Bytes} (h : takeBytes count buffer = .ok (head, rest)) :
    buffer = head ++ rest ∧ Takes Fault.Short (takeBytes count) head head := by
  rw [takeBytes] at h
  split at h
  · cases h
  · next hsplit =>
      cases h
      obtain ⟨hlength, rfl⟩ := Bytes.eq_append_of_splitExact hsplit
      refine ⟨rfl, fun behind => takeBytes_append behind hlength, fun k hk => ?_⟩
      have hshort : ((head.take k).take count).length ≠ count := by
        rw [List.length_take, List.length_take]
        omega
      exact ⟨.truncated, by rw [takeBytes, Bytes.splitExact, if_neg hshort], Or.inl rfl⟩

theorem takes_readValue {wireType : Nat} {value : Value}
    (h : readValue wireType buffer = .ok (value, rest)) :
    ∃ part, buffer = part ++ rest ∧ Takes Fault.Short (readValue wireType) part value := by
  unfold readValue at h
  split at h
  · obtain ⟨⟨word, _⟩, hread, heq⟩ := map_eq_ok.mp h
    cases heq
    obtain ⟨part, hbuffer, htakes⟩ := takes_takeVarint hread
    exact ⟨part, hbuffer, htakes.map Value.varint⟩
  · obtain ⟨⟨word, _⟩, hread, heq⟩ := map_eq_ok.mp h
    cases heq
    obtain ⟨hbuffer, htakes⟩ := takes_takeBytes hread
    exact ⟨word, hbuffer, htakes.map fun word => Value.fixed64 (Bytes.toWord64 word)⟩
  · split at h
    · cases h
    · next size behind hsize =>
        obtain ⟨⟨payload, _⟩, hread, heq⟩ := map_eq_ok.mp h
        cases heq
        obtain ⟨part, rfl, hfirst⟩ := takes_takeVarint hsize
        obtain ⟨rfl, hpayload⟩ := takes_takeBytes hread
        refine ⟨part ++ payload, (List.append_assoc ..).symm, ?_⟩
        refine hfirst.bind (hpayload.map Value.bytes) (fun buffer rest hread => ?_)
          fun buffer fault hread hshort => ⟨fault, ?_, hshort⟩
        · rw [readValue, hread]
        · rw [readValue, hread]
  · cases h
    exact ⟨[], rfl, takes_nil Value.groupStart⟩
  · cases h
    exact ⟨[], rfl, takes_nil Value.groupEnd⟩
  · obtain ⟨⟨word, _⟩, hread, heq⟩ := map_eq_ok.mp h
    cases heq
    obtain ⟨hbuffer, htakes⟩ := takes_takeBytes hread
    exact ⟨word, hbuffer, htakes.map fun word => Value.fixed32 (Bytes.toWord32 word)⟩
  · cases h

/-- Reads what follows a tag. -/
def readBehind (context : Context) (tag : UInt64) (buffer : Bytes) :
    Except DecodeError (Field × Bytes) :=
  match readValue (tag.toNat % 8) buffer with
  | .error fault => .error (DecodeError.within { fault } context (some (tag >>> 3)))
  | .ok (value, rest) => .ok ({ number := tag >>> 3, value }, rest)

theorem fault_within (error : DecodeError) (context : Context) (field : Option UInt64) :
    (error.within context field).fault = error.fault := by
  unfold DecodeError.within
  split <;> rfl

/-- A field is taken as a whole: its tag and then its value. -/
theorem takes_read {field : Field} (h : read context buffer = .ok (field, rest)) :
    ∃ part, buffer = part ++ rest ∧
      Takes (fun error => error.fault.Short) (read context) part field := by
  rw [read] at h
  split at h
  · cases h
  · next tag behind htag =>
      dsimp only at h
      split at h
      · cases h
      · next value rest' hvalue =>
          cases h
          obtain ⟨first, rfl, hfirst⟩ := takes_takeVarint htag
          obtain ⟨second, rfl, hsecond⟩ := takes_readValue hvalue
          have hbehind : Takes (fun error => error.fault.Short) (readBehind context tag) second
              { number := tag >>> 3, value } := by
            refine hsecond.through (fun buffer rest hread => by rw [readBehind, hread]) ?_
            intro buffer fault hread hshort
            refine ⟨DecodeError.within { fault } context (some (tag >>> 3)), ?_, ?_⟩
            · rw [readBehind, hread]
            · rwa [fault_within]
          refine ⟨first ++ second, (List.append_assoc ..).symm, ?_⟩
          refine hfirst.bind hbehind (fun buffer rest hread => by rw [read, hread]; rfl) ?_
          exact fun buffer fault hread hshort => ⟨{ fault }, by rw [read, hread], hshort⟩

/-! ### Buffers -/

/-- The fields of a buffer, each with the place where it ends. The buffer begins at `start`. -/
inductive Ends (context : Context) : (start : Nat) → Bytes → List (Field × Nat) → Prop where
  | nil (start : Nat) : Ends context start [] []
  | field {start : Nat} {buffer rest : Bytes} {field : Field} {entries : List (Field × Nat)}
      (reads : read context buffer = .ok (field, rest))
      (others : Ends context (start + (buffer.length - rest.length)) rest entries) :
      Ends context start buffer ((field, start + (buffer.length - rest.length)) :: entries)

/-- A well-formed buffer has ends, and its fields are those that are read. -/
theorem exists_ends (h : (scan context buffer).error = none) (start : Nat) :
    ∃ entries, Ends context start buffer entries ∧
      entries.map (·.1) = (scan context buffer).items := by
  induction buffer using read_induction context generalizing start with
  | nil => exact ⟨[], .nil start, rfl⟩
  | unread buffer error hne hread =>
      rw [scan_of_read_error hne hread] at h
      cases h
  | field buffer field rest hread ih =>
      rw [scan_of_read hread] at h ⊢
      obtain ⟨entries, hends, hfields⟩ := ih h (start + (buffer.length - rest.length))
      exact ⟨_, .field hread hends, congrArg (field :: ·) hfields⟩

/-- What is read of a buffer that is cut off at a place: the fields that end before, and then nothing
if one ends there, but an error that tells of missing bytes if none does. -/
structure Cut (start : Nat) (entries : List (Field × Nat)) (place : Nat) (scan : Scan Field) :
    Prop where
  items : scan.items = (entries.filter (·.2 ≤ place)).map (·.1)
  whole : place ∈ start :: entries.map (·.2) → scan.error = none
  broken : place ∉ start :: entries.map (·.2) →
    ∃ error, scan.error = some error ∧ error.fault.Short

section

variable {start place : Nat} {entries : List (Field × Nat)}

/-- Before the first byte nothing is read. -/
theorem cut_start (later : ∀ entry ∈ entries, start < entry.2) :
    Cut start entries start { items := [] } where
  items := by
    have hnone : entries.filter (·.2 ≤ start) = [] := by
      rw [List.filter_eq_nil_iff]
      intro entry hentry
      simpa using later entry hentry
    rw [hnone]
    rfl
  whole _ := rfl
  broken hplace := absurd List.mem_cons_self hplace

/-- A cut inside the first field leaves an error. -/
theorem cut_inside (behind : start < place) (later : ∀ entry ∈ entries, place < entry.2)
    {error : DecodeError} (short : error.fault.Short) :
    Cut start entries place { items := [], error := some error } where
  items := (cut_start later).items
  whole hplace := by
    rcases List.mem_cons.mp hplace with heq | hend
    · exact absurd heq (Nat.ne_of_gt behind)
    · obtain ⟨entry, hentry, heq⟩ := List.mem_map.mp hend
      exact absurd heq (Nat.ne_of_gt (later entry hentry))
  broken _ := ⟨error, rfl, short⟩

/-- A field that ends before the cut is read before the others. -/
theorem Cut.cons {scan : Scan Field} {field : Field} {ends : Nat}
    (h : Cut ends entries place scan) (first : start < ends) (before : ends ≤ place) :
    Cut start ((field, ends) :: entries) place
      { items := field :: scan.items, error := scan.error } where
  items := by
    rw [List.filter_cons_of_pos (by simpa using before), List.map_cons, h.items]
  whole hplace := by
    rcases List.mem_cons.mp hplace with heq | hends
    · exact absurd heq (Nat.ne_of_gt (Nat.lt_of_lt_of_le first before))
    · exact h.whole hends
  broken hplace := h.broken fun hends => hplace (List.mem_cons_of_mem start hends)

end

namespace Ends

variable {start : Nat} {entries : List (Field × Nat)}

/-- The first field of a buffer is the first to end. -/
theorem of_read (h : Ends context start buffer entries) {field : Field}
    (hread : read context buffer = .ok (field, rest)) :
    ∃ others, entries = (field, start + (buffer.length - rest.length)) :: others ∧
      Ends context (start + (buffer.length - rest.length)) rest others := by
  cases h with
  | nil => cases hread
  | field hfield hothers =>
      rw [hread] at hfield
      cases hfield
      exact ⟨_, rfl, hothers⟩

/-- The places go up, from the start of the buffer to its end. -/
theorem places (h : Ends context start buffer entries) :
    (start :: entries.map (·.2)).Pairwise (· < ·) ∧
      (start :: entries.map (·.2)).getLast (List.cons_ne_nil _ _) = start + buffer.length := by
  induction h with
  | nil => simp
  | @field start buffer rest field entries hread _ ih =>
      have hshorter := length_lt_of_read hread
      obtain ⟨hup, hlast⟩ := ih
      constructor
      · rw [List.map_cons, List.pairwise_cons]
        refine ⟨fun place hplace => ?_, hup⟩
        rcases List.mem_cons.mp hplace with rfl | hlater
        · omega
        · have hbehind := List.rel_of_pairwise_cons hup hlater
          omega
      · rw [List.map_cons, List.getLast_cons (List.cons_ne_nil _ _), hlast]
        omega

/-- Nothing ends before the start. -/
theorem lt_of_mem (h : Ends context start buffer entries) {entry : Field × Nat}
    (hentry : entry ∈ entries) : start < entry.2 :=
  List.rel_of_pairwise_cons h.places.1 (List.mem_map_of_mem hentry)

/-- A buffer with ends can be cut off anywhere. -/
theorem cut_take (h : Ends context start buffer entries) {k : Nat} (hk : k ≤ buffer.length) :
    Cut start entries (start + k) (scan context (buffer.take k)) := by
  induction h generalizing k with
  | nil start =>
      obtain rfl : k = 0 := Nat.le_zero.mp hk
      exact cut_start (List.forall_mem_nil _)
  | @field start buffer rest field entries hread hends ih =>
      have hall := Ends.field hread hends
      have hshorter := length_lt_of_read hread
      obtain ⟨part, rfl, htakes⟩ := takes_read hread
      have hlength : (part ++ rest).length - rest.length = part.length := by
        rw [List.length_append, Nat.add_sub_cancel]
      rw [hlength] at hall hends ih ⊢
      by_cases hzero : k = 0
      · subst hzero
        exact cut_start fun entry => hall.lt_of_mem
      by_cases hinside : k < part.length
      · obtain ⟨error, herror, hshort⟩ := htakes.cut k hinside
        have hne : part.take k ≠ [] := by
          intro hnil
          have hnone := congrArg List.length hnil
          rw [List.length_take, Nat.min_eq_left (Nat.le_of_lt hinside)] at hnone
          exact hzero hnone
        rw [List.take_append_of_le_length (Nat.le_of_lt hinside), scan_of_read_error hne herror]
        have hplace : start + k < start + part.length := Nat.add_lt_add_left hinside start
        refine cut_inside (by omega) ?_ (by rwa [fault_within])
        rintro entry (_ | ⟨_, hentry⟩)
        · exact hplace
        · exact Nat.lt_trans hplace (hends.lt_of_mem hentry)
      · obtain ⟨more, rfl⟩ := Nat.exists_eq_add_of_le (Nat.le_of_not_lt hinside)
        rw [List.length_append] at hk hshorter
        have hrest := ih (Nat.le_of_add_le_add_left hk)
        rw [List.take_length_add_append, scan_of_read (htakes.whole _), ← Nat.add_assoc]
        exact hrest.cons (by omega) (Nat.le_add_right _ _)

end Ends

/-! ### The iteration -/

/-- One step of an iteration over the fields of a buffer: an item, and what is left of the buffer.
After an error nothing is. -/
def next (context : Context) (buffer : Bytes) : Option (Except DecodeError Field × Bytes) :=
  if buffer.isEmpty then none
  else
    match read context buffer with
    | .error error => some (.error (error.within context none), [])
    | .ok (field, rest) => some (.ok field, rest)

/-- The items of an iteration that comes to an end. -/
inductive Yields (context : Context) : Bytes → List (Except DecodeError Field) → Prop where
  | stop {buffer : Bytes} (ended : next context buffer = none) : Yields context buffer []
  | step {buffer rest : Bytes} {item : Except DecodeError Field}
      {items : List (Except DecodeError Field)} (made : next context buffer = some (item, rest))
      (others : Yields context rest items) : Yields context buffer (item :: items)

end Field

/-- The items that were read, and then the error that ended the reading. -/
def Scan.stream {α : Type} (scan : Scan α) : List (Except DecodeError α) :=
  scan.items.map .ok ++ scan.error.toList.map .error

namespace Field

variable {context : Context} {buffer rest : Bytes}

/-- The items of an iteration are determined. -/
theorem Yields.unique {items others : List (Except DecodeError Field)}
    (h : Yields context buffer items) (hothers : Yields context buffer others) : items = others := by
  induction h generalizing others with
  | stop hended =>
      cases hothers with
      | stop => rfl
      | step hmade =>
          rw [hended] at hmade
          cases hmade
  | step hmade _ ih =>
      cases hothers with
      | stop hended =>
          rw [hmade] at hended
          cases hended
      | step hmade' hrest =>
          rw [hmade] at hmade'
          cases hmade'
          rw [ih hrest]

/-- An iteration comes to an end, and its items are those of a scan. -/
theorem yields_scan (context : Context) (buffer : Bytes) :
    Yields context buffer (scan context buffer).stream := by
  induction buffer using read_induction context with
  | nil => exact .stop rfl
  | unread buffer error hne hread =>
      rw [scan_of_read_error hne hread]
      have hmade : next context buffer = some (.error (error.within context none), []) := by
        simp [next, hne, hread]
      exact .step hmade (.stop rfl)
  | field buffer field rest hread ih =>
      have hne : buffer ≠ [] := by
        rintro rfl
        cases hread
      rw [scan_of_read hread]
      have hmade : next context buffer = some (.ok field, rest) := by
        simp [next, hne, hread]
      exact .step hmade ih

theorem length_stream_le (context : Context) (buffer : Bytes) :
    (scan context buffer).stream.length ≤ buffer.length := by
  induction buffer using read_induction context with
  | nil => exact Nat.le_refl 0
  | unread buffer error hne hread =>
      rw [scan_of_read_error hne hread]
      exact List.length_pos_of_ne_nil hne
  | field buffer field rest hread ih =>
      rw [scan_of_read hread]
      exact Nat.lt_of_le_of_lt ih (length_lt_of_read hread)

/-- An error is the last item. -/
theorem last_of_stream_error {α : Type} {scan : Scan α} {position : Nat} {error : DecodeError}
    (h : scan.stream[position]? = some (.error error)) : position + 1 = scan.stream.length := by
  have hitem : ∀ (item : Except DecodeError α), item ∈ scan.items.map .ok → item ≠ .error error := by
    intro item hmem heq
    obtain ⟨value, _, rfl⟩ := List.mem_map.mp hmem
    cases heq
  unfold Scan.stream at h ⊢
  by_cases hlt : position < (scan.items.map (Except.ok : α → Except DecodeError α)).length
  · rw [List.getElem?_append_left hlt] at h
    exact absurd rfl (hitem _ (List.mem_of_getElem? h))
  · have hle := Nat.le_of_not_lt hlt
    rw [List.getElem?_append_right hle] at h
    cases herror : scan.error with
    | none =>
        rw [herror] at h
        cases h
    | some last =>
        rw [herror] at h
        obtain ⟨hbound, _⟩ := List.getElem?_eq_some_iff.mp h
        have hone : ((some last).toList.map (Except.error : _ → Except DecodeError α)).length = 1 := rfl
        rw [hone] at hbound
        rw [List.length_append, hone]
        omega

/-- A cut is always noticed. The fields of a well-formed buffer that end before the cut are read, and
if the cut is not where one ends an error tells of missing bytes. Of any buffer, an iteration yields
at most as many items as there are bytes, and an error only as the last of them. -/
theorem truncation_noticed (context : Context) (buffer : Bytes) :
    ((scan context buffer).error = none →
      ∃ entries, Ends context 0 buffer entries ∧
        entries.map (·.1) = (scan context buffer).items ∧
        (0 :: entries.map (·.2)).Pairwise (· < ·) ∧
        (0 :: entries.map (·.2)).getLast (List.cons_ne_nil _ _) = buffer.length ∧
        ∀ k ≤ buffer.length,
          (scan context (buffer.take k)).items = (entries.filter (·.2 ≤ k)).map (·.1) ∧
          (k ∈ 0 :: entries.map (·.2) → (scan context (buffer.take k)).error = none) ∧
          (k ∉ 0 :: entries.map (·.2) → ∃ error,
            (scan context (buffer.take k)).error = some error ∧ error.fault.Short)) ∧
      (∀ items, Yields context buffer items ↔ items = (scan context buffer).stream) ∧
      (scan context buffer).stream.length ≤ buffer.length ∧
      ∀ position error, (scan context buffer).stream[position]? = some (.error error) →
        position + 1 = (scan context buffer).stream.length := by
  refine ⟨fun h => ?_, fun items => ?_, length_stream_le context buffer,
    fun _ _ => last_of_stream_error⟩
  · obtain ⟨entries, hends, hfields⟩ := exists_ends h 0
    obtain ⟨hup, hlast⟩ := hends.places
    refine ⟨entries, hends, hfields, hup, by rw [hlast, Nat.zero_add], fun k hk => ?_⟩
    have hcut := hends.cut_take hk
    rw [Nat.zero_add] at hcut
    exact ⟨hcut.items, hcut.whole, hcut.broken⟩
  · constructor
    · exact fun h => h.unique (yields_scan context buffer)
    · rintro rfl
      exact yields_scan context buffer

/-- A varint in two bytes where one would do, and an empty payload: every cut but those behind a field
is noticed, also the one inside the varint and the one inside the tag of the payload. -/
theorem truncation_noticed_loose :
    let buffer : Bytes := [0x08, 0x81, 0x00, 0x92, 0x01, 0x00]
    (scan none buffer).error = none ∧
      Ends none 0 buffer [({ number := 1, value := .varint 1 }, 3),
        ({ number := 18, value := .bytes [] }, 6)] ∧
      ∀ k ≤ 6, k ∉ [0, 3, 6] →
        ∃ error, (scan none (buffer.take k)).error = some error ∧ error.fault.Short := by
  intro buffer
  have h : (scan none buffer).error = none := by decide
  have hfirst : read none buffer = .ok ({ number := 1, value := .varint 1 }, [0x92, 0x01, 0x00]) := by
    decide
  have hsecond : read none [0x92, 0x01, 0x00] = .ok ({ number := 18, value := .bytes [] }, []) := by
    decide
  obtain ⟨entries, hends, _, _, _, hcut⟩ := (truncation_noticed none buffer).1 h
  obtain ⟨others, rfl, hrest⟩ := hends.of_read hfirst
  obtain ⟨last, rfl, hnil⟩ := hrest.of_read hsecond
  cases hnil with
  | nil => exact ⟨h, hends, fun k hk hplace => (hcut k hk).2.2 hplace⟩
  | field hread => cases hread

end Field

end FixedShape.Wire
