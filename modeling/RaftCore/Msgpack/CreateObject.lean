import RaftCore.Msgpack.Format
import RaftCore.Msgpack.Parse

/-!
# Msgpack/CreateObject — the visitor that builds the object

`create_object_visitor` writes an object in place: the last pointer of `m_stack` is where the next
item goes, and each container pushes one to the room for its items, which then moves over them.
Here that is the item under the last pointer (`obj`) and, for each container, what the pointers
before it have moved over (`filled`).

The parser with this visitor is `v3::unpack`, the reader of the current interface; `context` is the
one before it, with the objects themselves on its stack.  **They agree** (`unpackV3_eq`): the
visitor only refuses an empty container where no further container may be opened, which the old
context lets in.
-/

namespace RaftCore

namespace Msgpack

open BigEndian

/-- A container that is being filled. -/
inductive Filling where
  | array (filled : List Object)
  | map (filled : List Object)

/-- The pointer moves over an item. -/
def Filling.add (obj : Object) : Filling → Filling
  | .array filled => .array (filled ++ [obj])
  | .map filled => .map (filled ++ [obj])

def Filling.object : Filling → Object
  | .array filled => .array filled
  | .map filled => .map (pairs filled)

/-- `m_stack`: the object under its last pointer, and the containers below, innermost first. -/
structure CreateObjectVisitor where
  obj : Object
  stack : List Filling

namespace CreateObjectVisitor

def put (s : CreateObjectVisitor) (obj : Object) : Except Error (Bool × CreateObjectVisitor) :=
  .ok (true, { s with obj := obj })

/-- `m_stack.push_back`, to room that nothing has been written to. -/
def start (s : CreateObjectVisitor) (empty : Filling) : Except Error (Bool × CreateObjectVisitor) :=
  .ok (true, ⟨.nil, empty :: s.stack⟩)

/-- `++m_stack.back()`. -/
def advance : CreateObjectVisitor → CreateObjectVisitor
  | ⟨obj, filling :: stack⟩ => ⟨.nil, filling.add obj :: stack⟩
  | s => s

/-- `m_stack.pop_back()`. -/
def finish : CreateObjectVisitor → CreateObjectVisitor
  | ⟨_, filling :: stack⟩ => ⟨filling.object, stack⟩
  | s => s

end CreateObjectVisitor

/-- `create_object_visitor`, without a reference function. -/
def createObjectVisitor (limit : UnpackLimit) : Visitor Error CreateObjectVisitor where
  visit call s := match call with
    | .visitNil => s.put .nil
    | .visitBoolean b => s.put (.boolean b)
    | .visitPositiveInteger v => s.put (.positiveInteger v)
    | .visitNegativeInteger v =>
      if 0 ≤ v then s.put (.positiveInteger v.toUInt64) else s.put (.negativeInteger v)
    | .visitFloat32 bits => s.put (.float32 bits)
    | .visitFloat64 bits => s.put (.float64 bits)
    | .visitStr v => if limit.str < v.length then .error .strSizeOverflow else s.put (.str v)
    | .visitBin v => if limit.bin < v.length then .error .binSizeOverflow else s.put (.bin v)
    | .visitExt v => if limit.ext < v.length then .error .extSizeOverflow else s.put (.ext v)
    | .startArray n =>
      if limit.array < n then .error .arraySizeOverflow
      else if limit.depth < s.stack.length + 1 then .error .depthSizeOverflow
      else s.start (.array [])
    | .startMap n =>
      if limit.map < n then .error .mapSizeOverflow
      else if limit.depth < s.stack.length + 1 then .error .depthSizeOverflow
      else s.start (.map [])
    | .startArrayItem | .startMapKey | .startMapValue => .ok (true, s)
    | .endArrayItem | .endMapKey | .endMapValue => .ok (true, s.advance)
    | .endArray | .endMap => .ok (true, s.finish)
  parseError _ _ _ := .error .parseError
  insufficientBytes _ _ _ := .error .insufficientBytes

/-- `v3::unpack`, and `off` after it. -/
def unpackV3 (limit : UnpackLimit) (data : List UInt8) (off : ℕ) : Except Error Object × ℕ :=
  match parseImp (createObjectVisitor limit) ⟨.nil, []⟩ data off with
  | (.ok (.success, s), off) => (.ok s.obj, off)
  | (.ok (.extraBytes, s), off) => (.ok s.obj, off)
  | (.ok _, off) => (.ok .nil, off)
  | (.error e, off) => (.error e, off)

/-! ## The visitor keeps the stack of the context -/

/-- What the parser keeps of an open container. -/
def Frame.elem : Frame → StackElem
  | .array _ count => ⟨.arrayItem, count⟩
  | .mapKey _ count => ⟨.mapKey, count⟩
  | .mapValue _ _ count => ⟨.mapValue, count⟩

/-- What the visitor keeps of it. -/
def Frame.filling : Frame → Filling
  | .array items _ => .array items
  | .mapKey items _ => .map (items.flatMap fun p => [p.1, p.2])
  | .mapValue items key _ => .map ((items.flatMap fun p => [p.1, p.2]) ++ [key])

/-- The same containers are open in the parser, in the visitor and in the context. -/
def Alike (stack : List Frame) (k : List StackElem × CreateObjectVisitor) : Prop :=
  k.1 = stack.map Frame.elem ∧ k.2.stack = stack.map Frame.filling

/-- What a parser does is what the context does. -/
def HandledAlike : Object ⊕ List Frame → Parsing Error CreateObjectVisitor → Prop
  | .inl obj, p => ∃ s, p = .ends false (.success s) ∧ s.obj = obj
  | .inr stack, p => ∃ k, p = .goes k ∧ Alike stack k

variable {limit : UnpackLimit}

/-- **`consume` is `push_item`**: the containers an item fills are closed and built alike. -/
theorem consume_alike (stack : List Frame) (s : CreateObjectVisitor)
    (h : s.stack = stack.map Frame.filling) : HandledAlike (pushItem stack s.obj)
      (consume (createObjectVisitor limit) (stack.map Frame.elem) s) := by
  induction stack generalizing s with
  | nil => exact ⟨s, rfl, rfl⟩
  | cons f stack ih =>
    obtain ⟨obj, fillings⟩ := s
    obtain rfl : fillings = f.filling :: stack.map Frame.filling := h
    cases f with
    | array items count =>
      change HandledAlike (if count - 1 = 0 then pushItem stack (.array (items ++ [obj]))
          else .inr (.array (items ++ [obj]) (count - 1) :: stack))
        (if count - 1 = 0 then consume _ (stack.map Frame.elem)
            ⟨.array (items ++ [obj]), stack.map Frame.filling⟩
          else .goes (⟨.arrayItem, count - 1⟩ :: stack.map Frame.elem,
            ⟨.nil, .array (items ++ [obj]) :: stack.map Frame.filling⟩))
      split_ifs
      · exact ih ⟨.array (items ++ [obj]), stack.map Frame.filling⟩ rfl
      · exact ⟨_, rfl, rfl, rfl⟩
    | mapKey items count => exact ⟨_, rfl, rfl, rfl⟩
    | mapValue items key count =>
      have hitems : (items.flatMap fun p => [p.1, p.2]) ++ [key] ++ [obj]
          = (items ++ [(key, obj)]).flatMap fun p => [p.1, p.2] := by
        rw [List.flatMap_append, List.append_assoc]
        rfl
      change HandledAlike (if count - 1 = 0 then pushItem stack (.map (items ++ [(key, obj)]))
          else .inr (.mapKey (items ++ [(key, obj)]) (count - 1) :: stack))
        (if count - 1 = 0 then consume _ (stack.map Frame.elem)
            ⟨.map (pairs ((items.flatMap fun p => [p.1, p.2]) ++ [key] ++ [obj])),
              stack.map Frame.filling⟩
          else .goes (⟨.mapKey, count - 1⟩ :: stack.map Frame.elem,
            ⟨.nil, .map ((items.flatMap fun p => [p.1, p.2]) ++ [key] ++ [obj])
              :: stack.map Frame.filling⟩))
      rw [hitems, pairs_flatMap]
      split_ifs
      · exact ih ⟨.map (items ++ [(key, obj)]), stack.map Frame.filling⟩ rfl
      · exact ⟨_, rfl, rfl, rfl⟩

/-- `visit_negative_integer` is `unpack_int64` of the old context. -/
theorem visit_negativeInteger {d : ℤ} (h : -2 ^ 63 ≤ d ∧ d < 2 ^ 63) (s : CreateObjectVisitor) :
    (createObjectVisitor limit).visit (.visitNegativeInteger (Int64.ofInt d)) s
      = s.put (unpackInt d) := by
  have htoInt := Int64.toInt_ofInt_of_le h.1 h.2
  have hsign : 0 ≤ Int64.ofInt d ↔ 0 ≤ d := by
    rw [Int64.le_iff_toInt_le, htoInt]
    rfl
  change (if 0 ≤ Int64.ofInt d then s.put (.positiveInteger (Int64.ofInt d).toUInt64)
    else s.put (.negativeInteger (Int64.ofInt d))) = _
  rw [unpackInt]
  split_ifs with hint hd hd
  · have hval : (Int64.ofInt d).toUInt64 = UInt64.ofNat d.toNat := by
      rw [← UInt64.toNat_inj, Int64.toNat_toUInt64_of_le hint, UInt64.toNat_ofNat',
        Int64.toNatClampNeg, htoInt]
      omega
    rw [hval]
  · exact absurd (hsign.mp hint) hd
  · exact absurd (hsign.mpr hd) hint
  · rfl

theorem castSize_of_lt {n : List UInt8} (h : n.length < 2 ^ 32) : castSize n = n := by
  rw [castSize, Nat.mod_eq_of_lt h, List.take_length]

/-- An item is handled alike, or both parsers refuse it, or the visitor finds it too deep. -/
def TokenAlike (limit : UnpackLimit) (stack : List Frame) (r : Except Error (Object ⊕ List Frame))
    (p : Parsing Error CreateObjectVisitor) : Prop :=
  (∃ e, r = .error e ∧ p = .ends true (.threw e)) ∨ (∃ q, r = .ok q ∧ HandledAlike q p) ∨
    (limit.depth < stack.length + 1 ∧ p = .ends true (.threw .depthSizeOverflow))

variable {stack : List Frame} {s : CreateObjectVisitor}

/-- A string, or the like, within a limit. -/
theorem afterVisitProc_alike (call : Visit) (e : Error) (obj : Object) (size most : ℕ)
    (hs : s.stack = stack.map Frame.filling) (hvisit : (createObjectVisitor limit).visit call s
      = if most < size then .error e else s.put obj) :
    TokenAlike limit stack
      ((if most < size then Except.error e else .ok obj).map (pushItem stack))
      (afterVisitProc (createObjectVisitor limit) (stack.map Frame.elem) s call) := by
  rw [afterVisitProc, Visitor.ask, hvisit]
  split_ifs
  · exact .inl ⟨e, rfl, rfl⟩
  · exact .inr (.inl ⟨_, rfl, consume_alike stack { s with obj := obj } hs⟩)

/-- The start of a container, within a limit. -/
theorem startAggregate_alike {sv : Visit} {e : Error} {size most : ℕ} (ev item : Visit) (f : Frame)
    (hs : s.stack = stack.map Frame.filling) (hrest : f.elem.rest = size)
    (hsv : (createObjectVisitor limit).visit sv s
      = if most < size then .error e
        else if limit.depth < s.stack.length + 1 then .error .depthSizeOverflow
        else s.start f.filling)
    (hev : ∀ s, (createObjectVisitor limit).visit ev s = .ok (true, s.finish))
    (hitem : ∀ s, (createObjectVisitor limit).visit item s = .ok (true, s)) :
    TokenAlike limit stack
      (if most < size then .error e
        else if size = 0 then .ok (pushItem stack f.filling.object)
        else if stack.length + 1 ≤ limit.depth then .ok (.inr (f :: stack))
        else .error .depthSizeOverflow)
      (startAggregate (createObjectVisitor limit) (stack.map Frame.elem) s sv ev item f.elem.type
        size) := by
  have hdepth : s.stack.length = stack.length := by rw [hs, List.length_map]
  rw [startAggregate, Visitor.ask, hsv, hdepth]
  by_cases hsize : most < size
  · rw [if_pos hsize, if_pos hsize]
    exact .inl ⟨e, rfl, rfl⟩
  rw [if_neg hsize, if_neg hsize]
  by_cases hdeep : limit.depth < stack.length + 1
  · rw [if_pos hdeep]
    exact .inr (.inr ⟨hdeep, rfl⟩)
  rw [if_neg hdeep, if_pos (not_lt.mp hdeep)]
  refine .inr (.inl ?_)
  dsimp only [CreateObjectVisitor.start]
  split_ifs with hzero
  · refine ⟨_, rfl, ?_⟩
    rw [Visitor.ask, hev]
    exact consume_alike stack ⟨f.filling.object, s.stack⟩ hs
  · refine ⟨_, rfl, ⟨f.elem :: stack.map Frame.elem, ⟨.nil, f.filling :: s.stack⟩⟩, ?_, rfl, ?_⟩
    · rw [Visitor.ask, hitem, ← hrest]
    · rw [hs]
      rfl

/-- **An item is handled alike**, or both parsers refuse it, or the visitor finds it too deep. -/
theorem visitToken_alike (limit : UnpackLimit) {k : List StackElem × CreateObjectVisitor}
    (h : Alike stack k) {bytes : List UInt8} {t : Token} (ht : Spells bytes t)
    (hext : ∀ n, t = .ext n → n.length < 2 ^ 32) :
    TokenAlike limit stack (handleToken limit stack t)
      (visitToken (createObjectVisitor limit) k t) := by
  obtain ⟨elems, s⟩ := k
  obtain ⟨rfl, hfilling⟩ := h
  have hput : ∀ obj, HandledAlike (pushItem stack obj)
      (consume (createObjectVisitor limit) (stack.map Frame.elem) { s with obj := obj }) :=
    fun obj => consume_alike stack { s with obj := obj } hfilling
  cases t with
  | nil => exact .inr (.inl ⟨_, rfl, hput .nil⟩)
  | boolean b => exact .inr (.inl ⟨_, rfl, hput (.boolean b)⟩)
  | uint u64 => exact .inr (.inl ⟨_, rfl, hput (.positiveInteger u64)⟩)
  | float bits => exact .inr (.inl ⟨_, rfl, hput (.float32 bits)⟩)
  | double bits => exact .inr (.inl ⟨_, rfl, hput (.float64 bits)⟩)
  | int d =>
    refine .inr (.inl ⟨_, rfl, ?_⟩)
    rw [visitToken, afterVisitProc, Visitor.ask, visit_negativeInteger ht.int_bounds]
    exact hput (unpackInt d)
  | str n =>
    rw [visitToken, castSize_of_lt (ht.content_lt (.inl rfl))]
    exact afterVisitProc_alike (.visitStr n) .strSizeOverflow (.str n) n.length limit.str hfilling
      rfl
  | bin n =>
    rw [visitToken, castSize_of_lt (ht.content_lt (.inr rfl))]
    exact afterVisitProc_alike (.visitBin n) .binSizeOverflow (.bin n) n.length limit.bin hfilling
      rfl
  | ext n =>
    rw [visitToken, castSize_of_lt (hext n rfl)]
    exact afterVisitProc_alike (.visitExt n) .extSizeOverflow (.ext n) n.length limit.ext hfilling
      rfl
  | array n =>
    exact startAggregate_alike .endArray .startArrayItem (.array [] n) hfilling rfl rfl
      (fun _ => rfl) fun _ => rfl
  | map n =>
    exact startAggregate_alike .endMap .startMapKey (.mapKey [] n) hfilling rfl rfl
      (fun _ => rfl) fun _ => rfl

/-! ## The readers agree -/

theorem length_pushItem {stack stack' : List Frame} {obj : Object}
    (h : pushItem stack obj = .inr stack') : stack'.length ≤ stack.length := by
  induction stack generalizing obj with
  | nil => cases h
  | cons f stack ih =>
    cases f with
    | array items count =>
      rw [pushItem] at h
      split_ifs at h
      · exact (ih h).trans (Nat.le_succ _)
      · rw [← Sum.inr.inj h]
        rfl
    | mapKey items count =>
      rw [← Sum.inr.inj h]
      rfl
    | mapValue items key count =>
      rw [pushItem] at h
      split_ifs at h
      · exact (ih h).trans (Nat.le_succ _)
      · rw [← Sum.inr.inj h]
        rfl

/-- An item opens one container at most. -/
theorem length_handleToken {stack stack' : List Frame} {t : Token}
    (h : handleToken limit stack t = .ok (.inr stack')) : stack'.length ≤ stack.length + 1 := by
  by_cases hlimit : limit.Admits t
  · rcases Nat.eq_zero_or_pos t.arity with hzero | hpos
    · rw [handleToken_item hlimit hzero] at h
      exact (length_pushItem (Except.ok.inj h)).trans (Nat.le_succ _)
    · by_cases hdepth : stack.length + 1 ≤ limit.depth
      · obtain ⟨f, hopen, -⟩ := handleToken_open hlimit hpos hdepth
        rw [hopen] at h
        rw [← Sum.inr.inj (Except.ok.inj h)]
        rfl
      · rw [handleToken_deep hlimit hpos hdepth] at h
        cases h
  · obtain ⟨e, -, -, herror⟩ := handleToken_refused hlimit stack
    rw [herror] at h
    cases h

/-- …and none beyond the depth that is allowed. -/
theorem length_handleToken_le {stack stack' : List Frame} {t : Token}
    (h : handleToken limit stack t = .ok (.inr stack')) (hstack : stack.length ≤ limit.depth) :
    stack'.length ≤ limit.depth := by
  by_cases hdepth : stack.length + 1 ≤ limit.depth
  · exact (length_handleToken h).trans hdepth
  by_cases hlimit : limit.Admits t
  · rcases Nat.eq_zero_or_pos t.arity with hzero | hpos
    · rw [handleToken_item hlimit hzero] at h
      exact (length_pushItem (Except.ok.inj h)).trans hstack
    · rw [handleToken_deep hlimit hpos hdepth] at h
      cases h
  · obtain ⟨e, -, -, herror⟩ := handleToken_refused hlimit stack
    rw [herror] at h
    cases h

/-- What is accepted is accepted where containers may be deeper. -/
theorem handleToken_deeper {stack : List Frame} {t : Token} {q : Object ⊕ List Frame} {depth : ℕ}
    (hdepth : depth ≤ limit.depth)
    (h : handleToken { limit with depth := depth } stack t = .ok q) :
    handleToken limit stack t = .ok q := by
  cases t with
  | array n | map n =>
    rw [handleToken] at h ⊢
    split_ifs at h with hsize hzero hopen
    · rw [if_neg hsize, if_pos hzero]
      exact h
    · rw [if_neg hsize, if_neg hzero, if_pos (hopen.trans hdepth)]
      exact h
  | _ => exact h

/-- The two readers end alike. -/
inductive EndsAlike : Reader.Outcome (Cs × List Frame) UInt8 (Except Error Object) →
    Reader.Outcome (Cs × List StackElem × CreateObjectVisitor) UInt8
      (Parsed Error CreateObjectVisitor) →
    Prop where
  | waiting (cs : Cs) (stack : List Frame) (k : List StackElem × CreateObjectVisitor)
    (rest : List UInt8) : EndsAlike (.waiting (cs, stack) rest) (.waiting (cs, k) rest)
  | success (s : CreateObjectVisitor) (rest : List UInt8) :
    EndsAlike (.halted (.ok s.obj) rest) (.halted (.success s) rest)
  | threw (e : Error) (rest : List UInt8) :
    EndsAlike (.halted (.error e) rest) (.halted (.threw e) rest)
  | parseError (s : CreateObjectVisitor) (rest : List UInt8) :
    EndsAlike (.halted (.error .parseError) rest) (.halted (.parseError s) rest)

/-- **The readers read alike**, but for a container too deep, which short bytes cannot hold. -/
theorem read_alike (limit : UnpackLimit) {data : List UInt8} (hlen : data.length < 2 ^ 32) :
    EndsAlike ((context limit).read (.header, []) data)
        ((parser (createObjectVisitor limit)).read (.header, [], ⟨.nil, []⟩) data) ∨
      limit.depth < data.length ∧ ∃ rest, (parser (createObjectVisitor limit)).read
        (.header, [], ⟨.nil, []⟩) data = .halted (.threw .depthSizeOverflow) rest := by
  refine read_sim (R := fun stack k xs => Alike stack k ∧ xs.length < 2 ^ 32 ∧
      stack.length + xs.length ≤ data.length)
    (Q := fun o o' => EndsAlike o o' ∨ limit.depth < data.length ∧
      ∃ rest, o' = .halted (.threw .depthSizeOverflow) rest)
    (fun cs rest _ => .inl (.waiting cs _ _ rest)) (fun _ => .inl (.parseError _ _)) ?_
    ⟨⟨rfl, rfl⟩, hlen, (Nat.zero_add _).le⟩
  rintro stack k bytes rest t ⟨halike, hshort, hdeep⟩ ht
  have hpos := List.length_pos_iff.mpr (completes_of_spells ht).ne_nil
  rw [List.length_append] at hshort hdeep
  have hext : ∀ n, t = .ext n → n.length < 2 ^ 32 := fun n hn =>
    (ht.length_content (.inr (.inr hn))).trans_lt (by omega)
  rcases visitToken_alike limit halike ht hext with ⟨e, herror, hthrew⟩ |
    ⟨obj | stack', hok, hhandled⟩ | ⟨hover, hthrew⟩
  · exact .inr (.inl ⟨true, _, _, by rw [herror]; rfl, hthrew, fun rest => .inl (.threw e rest)⟩)
  · obtain ⟨s, hends, rfl⟩ := hhandled
    exact .inr (.inl ⟨false, _, _, by rw [hok]; rfl, hends, fun rest => .inl (.success s rest)⟩)
  · obtain ⟨k', hgoes, halike'⟩ := hhandled
    have hlength := length_handleToken hok
    exact .inl ⟨stack', k', by rw [hok]; rfl, hgoes, halike', by omega, by omega⟩
  · exact .inr (.inr ⟨true, _, hthrew, fun rest' => .inr ⟨by omega, rest', rfl⟩⟩)

/-- **The readers read alike** whatever the first one accepts with one container less to spare. -/
theorem read_alike_deeper {depth : ℕ} (hdepth : depth < limit.depth) (hext : limit.ext < 2 ^ 32)
    (data : List UInt8) :
    EndsAlike ((context { limit with depth := depth }).read (.header, []) data)
        ((parser (createObjectVisitor limit)).read (.header, [], ⟨.nil, []⟩) data) ∨
      ∃ e rest, (context { limit with depth := depth }).read (.header, []) data
        = .halted (.error e) rest := by
  -- The context comes second, so that it may give up first.
  refine read_sim (R := fun k stack _ => Alike stack k ∧ stack.length ≤ depth)
    (Q := fun o o' => EndsAlike o' o ∨ ∃ e rest, o' = .halted (.error e) rest)
    (fun cs rest _ => .inl (.waiting cs _ _ rest)) (fun _ => .inl (.parseError _ _)) ?_
    ⟨⟨rfl, rfl⟩, Nat.zero_le _⟩
  rintro k stack bytes rest t ⟨halike, hstack⟩ ht
  match hnarrow : handleToken { limit with depth := depth } stack t with
  | .error e => exact .inr (.inr ⟨true, .error e, rfl, fun rest' => .inr ⟨e, rest', rfl⟩⟩)
  | .ok q =>
    have hok := handleToken_deeper hdepth.le hnarrow
    have hcontent : ∀ n, t = .ext n → n.length < 2 ^ 32 := by
      rintro n rfl
      by_contra hlen
      have hrefused : ¬limit.Admits (.ext n) := not_le.mpr (hext.trans_le (not_lt.mp hlen))
      obtain ⟨e, -, -, herror⟩ := handleToken_refused hrefused stack
      cases hok.symm.trans herror
    rcases visitToken_alike limit halike ht hcontent with ⟨e, herror, -⟩ | ⟨q', hq', hhandled⟩ |
      ⟨hover, -⟩
    · cases hok.symm.trans herror
    · obtain rfl : q = q' := Except.ok.inj (hok.symm.trans hq')
      cases q with
      | inl obj =>
        obtain ⟨s, hends, rfl⟩ := hhandled
        exact .inr (.inl ⟨false, _, _, hends, rfl, fun rest => .inl (.success s rest)⟩)
      | inr stack' =>
        obtain ⟨k', hgoes, halike'⟩ := hhandled
        have hlength := length_handleToken_le hnarrow hstack
        exact .inl ⟨k', stack', hgoes, rfl, halike', hlength⟩
    · omega

/-- **The two readers of the library agree**, object, offset and exception, unless the visitor
finds an empty container too deep; and on no more bytes than the depth allowed it never does. -/
theorem unpackV3_eq {data : List UInt8} {off : ℕ} (hlen : data.length - off < 2 ^ 32) :
    ((unpackV3 limit data off).1 = (unpack limit data off).map Prod.fst ∧
      ∀ p, unpack limit data off = .ok p → (unpackV3 limit data off).2 = p.2) ∨
    (limit.depth < data.length - off ∧
      (unpackV3 limit data off).1 = .error .depthSizeOverflow) := by
  have hread := read_alike limit (show (data.drop off).length < 2 ^ 32 by simpa using hlen)
  rw [List.length_drop] at hread
  rw [unpackV3, parseImp, unpack_eq_read]
  rcases Nat.lt_or_ge off data.length with hoff | hoff
  · rw [if_neg (by omega)]
    rcases hread with halike | ⟨hdepth, rest, hthrew⟩
    · generalize (context limit).read (.header, []) (data.drop off) = o at *
      generalize (parser (createObjectVisitor limit)).read (.header, [], ⟨.nil, []⟩)
        (data.drop off) = o' at *
      cases halike with
      | waiting cs stack k rest => exact .inl ⟨rfl, fun p hp => by cases hp⟩
      | success s rest =>
        refine .inl ?_
        dsimp only
        split_ifs
        · exact ⟨rfl, fun p hp => congrArg Prod.snd (Except.ok.inj hp)⟩
        · exact ⟨rfl, fun p hp => congrArg Prod.snd (Except.ok.inj hp)⟩
      | threw e rest => exact .inl ⟨rfl, fun p hp => by cases hp⟩
      | parseError s rest => exact .inl ⟨rfl, fun p hp => by cases hp⟩
    · rw [hthrew]
      exact .inr ⟨hdepth, rfl⟩
  · rw [if_pos hoff, List.drop_of_length_le hoff]
    exact .inl ⟨rfl, fun p hp => by cases hp⟩

theorem unpackV3_eq_five :
    ((unpackV3 {} [0x91, 0x05] 0).1 = (unpack {} [0x91, 0x05] 0).map Prod.fst ∧
      ∀ p, unpack {} [0x91, 0x05] 0 = .ok p → (unpackV3 {} [0x91, 0x05] 0).2 = p.2) ∨
    ((0xffffffff < 2 - 0) ∧ (unpackV3 {} [0x91, 0x05] 0).1 = .error .depthSizeOverflow) :=
  unpackV3_eq (by decide)

end Msgpack

end RaftCore
