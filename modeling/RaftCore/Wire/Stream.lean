import RaftCore.Msgpack.Stream
import RaftCore.Wire.Records

/-!
# Wire/Stream — messages on a stream

What is sent is one packed message behind another; what arrives is written to an unpacker in pieces,
with `next` called in between.  The objects it returns are the first messages sent, in order: none
is lost, doubled or altered, and `next` finds the one behind them as soon as its bytes are there
(`messages_arrive`).

An item of the stream (`Packed`) carries the object its bytes encode.  The objects found in what has
arrived are those of the first items, and end where these do (`Unpacks.of_packed`).
-/

namespace RaftCore

namespace Msgpack

variable {α : Type} {adaptor : Adaptor α}

/-! ## What is packed behind one another -/

/-- A value with its bytes, the object they are read as, and that it is converted back. -/
structure Packed (adaptor : Adaptor α) where
  value : α
  bytes : List UInt8
  obj : Object
  pack_eq : adaptor.pack value = .ok bytes
  encodes : Encodes {} (UnpackLimit.depth {} - 1) bytes obj
  convert_eq : ∀ target, adaptor.convert obj target = .ok value

/-- The item of an array of one is encoded with a container less. -/
theorem Encodes.of_array_one {limit : UnpackLimit} {depth : ℕ} {bytes : List UInt8} {obj : Object}
    (h : Encodes limit (depth + 1) (0x91 :: bytes) (.array [obj])) :
    Encodes limit depth bytes obj := by
  obtain ⟨t, head, parts, items, hhead, -, harity, hparts, hbytes, hobj⟩ := h
  have hone : Spells [0x91] (.array 1) := @Spells.fixarray 1 (by decide)
  cases head with
  | nil => exact absurd rfl (completes_of_spells hhead).ne_nil
  | cons b head =>
    obtain ⟨rfl, hrest⟩ := List.cons.inj hbytes
    obtain ⟨rfl, rfl⟩ := hone.eq_of_append hhead
    obtain rfl : [obj] = items := Object.array.inj hobj
    cases hparts with
    | @cons part _ _ _ hpart hnil =>
      cases hnil
      have hbytes' : bytes = part := hrest.trans (List.append_nil part)
      exact hbytes' ▸ hpart

/-- **What is carried is encoded**, as deep as all but one of the containers that are allowed. -/
theorem Delivers.encodes {depth : ℕ} {bytes : List UInt8} {obj : Object}
    (h : Delivers depth bytes obj) (hdepth : depth + 1 ≤ UnpackLimit.depth {}) :
    Encodes {} (UnpackLimit.depth {} - 1) bytes obj := by
  have harray : Delivers (depth + 1) (0x91 :: bytes) (.array [obj]) := by
    have hone : (1 : UInt32).toNat = [obj].length := rfl
    have hdelivers := delivers_array (.cons h .nil) hone
    rwa [List.flatten_singleton] at hdelivers
  obtain ⟨part, rest, hpart, hencodes, hoff⟩ := encodes_of_unpack (harray.unpack_eq hdepth [] [])
  rw [List.nil_append, List.append_nil, List.length_nil, List.drop_zero] at hpart
  have hlen := congrArg List.length hpart
  rw [List.length_append] at hlen
  rw [List.length_nil] at hoff
  obtain rfl : rest = [] := List.length_eq_zero_iff.mp (by omega)
  rw [List.append_nil] at hpart
  exact Encodes.of_array_one (hpart ▸ hencodes)

/-- What is carried is an item of a stream. -/
theorem Carries.exists_packed {x : α} {depth : ℕ} (h : Carries adaptor depth x)
    (hdepth : depth + 1 ≤ UnpackLimit.depth {}) : ∃ p : Packed adaptor, p.value = x := by
  obtain ⟨bytes, obj, hpack, hdelivers, hconvert⟩ := h
  exact ⟨⟨x, bytes, obj, hpack, hdelivers.encodes hdepth, hconvert⟩, rfl⟩

/-- The bytes of the items are what their values are packed as. -/
theorem packAll_values (sent : List (Packed adaptor)) :
    adaptor.packAll (sent.map Packed.value) = .ok (sent.flatMap Packed.bytes) := by
  induction sent with
  | nil => rfl
  | cons p sent ih =>
    rw [List.map_cons, Adaptor.packAll, p.pack_eq, ih]
    rfl

/-- Values that are carried are the items of a stream. -/
theorem exists_packed_all {xs : List α} {depth : ℕ} (h : ∀ x ∈ xs, Carries adaptor depth x)
    (hdepth : depth + 1 ≤ UnpackLimit.depth {}) :
    ∃ sent : List (Packed adaptor), sent.map Packed.value = xs := by
  induction xs with
  | nil => exact ⟨[], rfl⟩
  | cons x xs ih =>
    obtain ⟨p, rfl⟩ := (h x List.mem_cons_self).exists_packed hdepth
    obtain ⟨sent, rfl⟩ := ih fun y hy => h y (List.mem_cons_of_mem _ hy)
    exact ⟨p :: sent, rfl⟩

/-! ## What has arrived of it -/

/-- The parser that calls the visitor reads an item as the other does. -/
theorem Packed.read (p : Packed adaptor) (rest : List UInt8) : ∃ s : CreateObjectVisitor,
    s.obj = p.obj ∧ (parser (createObjectVisitor {})).read (.header, [], ⟨.nil, []⟩)
      (p.bytes ++ rest) = .halted (.success s) rest := by
  let narrow : UnpackLimit := { depth := UnpackLimit.depth {} - 1 }
  have hnarrow : ∀ t, UnpackLimit.Admits {} t → narrow.Admits t := fun t ht => by
    cases t <;> exact ht
  have hread := (p.encodes.of_admits hnarrow).read_nil []
  rw [List.append_nil] at hread
  rcases read_alike_deeper (show UnpackLimit.depth {} - 1 < UnpackLimit.depth {} by decide)
    (show UnpackLimit.ext {} < 2 ^ 32 by decide) p.bytes with halike | ⟨e, left, herror⟩
  · rw [hread] at halike
    generalize hparsed : (parser (createObjectVisitor {})).read (.header, [], ⟨.nil, []⟩) p.bytes
      = o at halike
    generalize p.obj = obj at halike ⊢
    cases halike with
    | success s => exact ⟨s, rfl, Reader.read_append_of_halted hparsed rest⟩
  · cases hread.symm.trans herror

/-- The beginning of an item is too little. -/
theorem Packed.read_short (p : Packed adaptor) {got missing : List UInt8}
    (h : p.bytes = got ++ missing) (hne : missing ≠ []) : ∃ s rest,
      (parser (createObjectVisitor {})).read (.header, [], ⟨.nil, []⟩) got = .waiting s rest := by
  obtain ⟨s, -, hread⟩ := p.read []
  rw [List.append_nil, h, Reader.read_append] at hread
  match hgot : (parser (createObjectVisitor {})).read (.header, [], ⟨.nil, []⟩) got with
  | .waiting s rest => exact ⟨s, rest, rfl⟩
  | .halted c rest =>
    rw [hgot, Reader.Outcome.thenRead] at hread
    exact absurd (List.append_eq_nil_iff.mp (Reader.Outcome.halted.inj hread).2).2 hne

/-- **The next item** is found as soon as its bytes are there. -/
theorem Packed.unpackV3_next (p : Packed adaptor) {data more later : List UInt8} {done : ℕ}
    (hdone : done ≤ data.length) (h : data.drop done ++ more = p.bytes ++ later) :
    (done + p.bytes.length ≤ data.length ∧
      unpackV3 {} data done = (.ok p.obj, done + p.bytes.length)) ∨
    (data.length < done + p.bytes.length ∧
      (unpackV3 {} data done).1 = .error .insufficientBytes) := by
  have hlength : (data.drop done).length = data.length - done := List.length_drop
  have hfound : ∀ rest, data.drop done = p.bytes ++ rest → done + p.bytes.length ≤ data.length ∧
      unpackV3 {} data done = (.ok p.obj, done + p.bytes.length) := by
    intro rest hdrop
    obtain ⟨s, hobj, hread⟩ := p.read rest
    refine ⟨?_, unpackV3_eq_ok_iff.mpr ⟨rest, ?_, (length_sub_of_drop hdrop p.encodes.ne_nil).symm⟩⟩
    · rw [hdrop, List.length_append] at hlength
      omega
    · rw [readAt, hdrop, hread, ← hobj]
      rfl
  rcases List.append_eq_append_iff.mp h with ⟨missing, hbytes, -⟩ | ⟨rest, hdrop, -⟩
  · rcases eq_or_ne missing [] with rfl | hne
    · exact .inl (hfound [] (by rw [hbytes, List.append_nil, List.append_nil]))
    · obtain ⟨s, rest, hread⟩ := p.read_short hbytes hne
      refine .inr ⟨?_, ?_⟩
      · have hpos := List.length_pos_iff.mpr hne
        rw [hbytes, List.length_append]
        omega
      · rw [(unpackV3_eq_read {} data done).1, readAt, hread]
        rfl
  · exact .inl (hfound rest hdrop)

/-- **The objects found are those of the first items**, and end where these do. -/
theorem Unpacks.of_packed {data more : List UInt8} {off done : ℕ} {found : List Object}
    {sent : List (Packed adaptor)} (h : Unpacks {} data off found done) (hoff : off ≤ data.length)
    (hsent : data.drop off ++ more = sent.flatMap Packed.bytes) :
    ∃ got left, sent = got ++ left ∧ found = got.map Packed.obj ∧ done ≤ data.length ∧
      done = off + (got.flatMap Packed.bytes).length ∧
      data.drop done ++ more = left.flatMap Packed.bytes := by
  induction h with
  | nil => exact ⟨[], sent, rfl, rfl, hoff, rfl, hsent⟩
  | @snoc off' off'' found obj _ hobj ih =>
    obtain ⟨got, left, rfl, rfl, hle, rfl, hleft⟩ := ih
    obtain ⟨rest, hbuilt, -⟩ := unpackV3_eq_ok_iff.mp hobj
    have hlt := lt_of_built_ok hbuilt
    cases left with
    | nil =>
      have hnil := congrArg List.length (List.append_eq_nil_iff.mp hleft).1
      rw [List.length_drop, List.length_nil] at hnil
      omega
    | cons p left =>
      rw [List.flatMap_cons] at hleft
      rcases p.unpackV3_next hle hleft with ⟨hthere, heq⟩ | ⟨-, herror⟩
      · obtain ⟨hok, rfl⟩ := Prod.mk.inj (hobj.symm.trans heq)
        obtain rfl := Except.ok.inj hok
        refine ⟨got ++ [p], left, by simp, by simp, hthere, by simp [Nat.add_assoc], ?_⟩
        have hdrop := congrArg (List.drop p.bytes.length) hleft
        rwa [List.drop_left, List.drop_append_of_le_length (by rw [List.length_drop]; omega),
          List.drop_drop] at hdrop
      · rw [hobj] at herror
        cases herror

/-- **A session on a stream of items**: the objects of the first ones are returned, and `next` has
the one behind them, or its bytes are not all there. -/
theorem session_packed {m : Malloc} {u u' : Unpacker} {initialBufferSize : ℕ}
    {calls : List UnpackerCall} {objs : List Object} {sent : List (Packed adaptor)}
    {more : List UInt8} (hsent : written calls ++ more = sent.flatMap Packed.bytes)
    (hconstruct : Unpacker.construct m initialBufferSize = some u)
    (hreserve : ∀ sole size, .reserve sole size ∈ calls → size < 2 ^ 63)
    (hsession : u.session m {} calls = some (objs, u')) :
    ∃ got left, sent = got ++ left ∧ objs = got.map Packed.obj ∧
      ((∃ u'', u'.next {} = .ok (none, u'')) ∧
        (∀ p ∈ left.head?, (written calls).length < ((got ++ [p]).flatMap Packed.bytes).length) ∨
      ∃ p ∈ left.head?, ∃ u'', u'.next {} = .ok (some p.obj, u'')) := by
  obtain ⟨done, h⟩ := (Unpacker.construct_tracks hconstruct).session hreserve hsession
  rw [List.nil_append, List.nil_append] at h
  obtain ⟨got, left, rfl, rfl, hle, rfl, hleft⟩ := h.unpacks.of_packed (Nat.zero_le _) hsent
  refine ⟨got, left, rfl, rfl, ?_⟩
  have hnext := h.next_spec.1
  cases left with
  | nil =>
    have hshort : (unpackV3 {} (written calls) (0 + (got.flatMap Packed.bytes).length)).1
        = .error .insufficientBytes := by
      rw [(unpackV3_eq_read _ _ _).1, readAt, (List.append_eq_nil_iff.mp hleft).1]
      rfl
    rw [hshort] at hnext
    exact .inl ⟨hnext, fun p hp => by cases hp⟩
  | cons p left =>
    rw [List.flatMap_cons] at hleft
    rcases p.unpackV3_next hle hleft with ⟨-, heq⟩ | ⟨hlt, herror⟩
    · rw [heq] at hnext
      exact .inr ⟨p, rfl, hnext⟩
    · rw [herror] at hnext
      refine .inl ⟨hnext, fun q hq => ?_⟩
      obtain rfl : p = q := Option.some.inj hq
      rw [List.flatMap_append, List.flatMap_singleton, List.length_append]
      omega

end Msgpack

/-! ## Messages -/

open Msgpack

/-- An object that any target becomes a message from. -/
def Conveys (obj : Object) (x : Message) : Prop :=
  ∀ target, Message.adaptor.convert obj target = .ok x

/-- **Messages arrive in order**: while the bytes of some messages, packed behind one another, are
written to an unpacker in whatever pieces, it has returned the objects of the first of them; and
`next` returns that of the one behind these, unless its bytes are not all there. -/
theorem messages_arrive {m : Malloc} {u u' : Unpacker} {initialBufferSize : ℕ}
    {calls : List UnpackerCall} {objs : List Object} {xs : List Message} {more : List UInt8}
    (hfits : ∀ x ∈ xs, x.Fits)
    (hsent : Message.adaptor.packAll xs = .ok (written calls ++ more))
    (hconstruct : Unpacker.construct m initialBufferSize = some u)
    (hreserve : ∀ sole size, .reserve sole size ∈ calls → size < 2 ^ 63)
    (hsession : u.session m {} calls = some (objs, u')) :
    ∃ got left, xs = got ++ left ∧ List.Forall₂ Conveys objs got ∧
      ((∃ u'', u'.next {} = .ok (none, u'')) ∧ (∀ x ∈ left.head?, ∀ bytes,
        Message.adaptor.packAll (got ++ [x]) = .ok bytes → (written calls).length < bytes.length) ∨
      ∃ x ∈ left.head?, ∃ obj u'', u'.next {} = .ok (some obj, u'') ∧ Conveys obj x) := by
  obtain ⟨sent, rfl⟩ := exists_packed_all (fun x hx => Message.carries (hfits x hx)) (by decide)
  have hbytes := Except.ok.inj (hsent.symm.trans (packAll_values sent))
  obtain ⟨got, left, rfl, rfl, hnext⟩ := session_packed hbytes hconstruct hreserve hsession
  refine ⟨got.map Packed.value, left.map Packed.value, List.map_append, ?_, ?_⟩
  · rw [List.forall₂_map_left_iff, List.forall₂_map_right_iff]
    exact List.forall₂_same.mpr fun p _ => p.convert_eq
  · rcases hnext with ⟨hnone, hmissing⟩ | ⟨p, hp, u'', hnext⟩
    · refine .inl ⟨hnone, fun x hx bytes hpack => ?_⟩
      rw [List.head?_map, Option.mem_map] at hx
      obtain ⟨p, hp, rfl⟩ := hx
      have hpacked := packAll_values (got ++ [p])
      rw [List.map_append, List.map_singleton, hpack] at hpacked
      rw [Except.ok.inj hpacked]
      exact hmissing p hp
    · refine .inr ⟨p.value, ?_, p.obj, u'', hnext, p.convert_eq⟩
      rw [List.head?_map]
      exact Option.mem_map_of_mem _ hp

/-- A heartbeat and most of a vote, in two pieces. -/
theorem messages_arrive_two : ∃ (u : Unpacker) (objs : List Object) (got left : List Message),
    [{ type := .msgHeartbeat, to' := 2, term := 3 }, { type := .msgVote, to' := 1, term := 300 }]
      = got ++ left ∧ List.Forall₂ Conveys objs got ∧
    ((∃ u', u.next {} = .ok (none, u')) ∧ (∀ x ∈ left.head?, ∀ bytes,
      Message.adaptor.packAll (got ++ [x]) = .ok bytes → 25 < bytes.length) ∨
    ∃ x ∈ left.head?, ∃ obj u', u.next {} = .ok (some obj, u') ∧ Conveys obj x) := by
  refine ⟨_, _, @messages_arrive ⟨fun n => decide (n < 2 ^ 63), of_decide_eq_true⟩ _ _ 64
    [.write [156, 8, 2, 0, 3, 0, 0, 144, 0, 146, 147, 146], .next,
      .write [144, 144, 0, 0, 160, 194, 0, 160, 156, 5, 1, 0, 205], .next]
    _ _ [1, 44, 0, 0, 144, 0, 146, 147, 146, 144, 144, 0, 0, 160, 194, 0, 160]
    (fun x hx => ?_) rfl rfl (by simp) rfl⟩
  rcases List.mem_pair.mp hx with rfl | rfl <;>
    exact ⟨by decide, fun e he => absurd he List.not_mem_nil, ⟨⟨by decide, by decide⟩, by decide⟩,
      by decide⟩

end RaftCore
