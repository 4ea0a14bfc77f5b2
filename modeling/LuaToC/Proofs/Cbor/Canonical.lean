import LuaToC.Cbor.Reader
import LuaToC.Proofs.Words

/-! # Canonical items are read back

The canonical encoding of an item tells where it ends.  `Reads` says so of a step of reading: it takes
exactly these bytes whatever follows them, and of a proper part of them it says that the input is
incomplete.  It holds for a head in its shortest form, whatever the width of its argument
(`reads_head`), and for the body of a string; it is kept when steps follow one another; so it holds for
the items of definite length, without tags, that are within the limits of the reader (`reads_itemAt`).
Input that is one item, less than one item, or more than one is told apart by it.
-/
namespace LuaToC.Cbor

/-- The step takes exactly `s`, whatever follows, and gives `x`; a proper part of `s` is incomplete. -/
structure Reads {α : Type} (step : Step α) (s : Bytes) (x : α) : Prop where
  whole : ∀ rest, step (s ++ rest) = .ok (x, rest)
  cut : ∀ t, t <+: s → t ≠ s → step t = .error .incomplete

section

variable {α β : Type} {step : Step α} {s t : Bytes} {x : α} {y : β}

theorem Reads.pure (x : α) : Reads (fun s => .ok (x, s)) [] x where
  whole _ := rfl
  cut _ ht hne := absurd (List.prefix_nil.mp ht) hne

theorem Reads.bind {F : α → Step β} (h : Reads step s x) (hF : Reads (F x) t y) :
    Reads (fun u => do let (a, u) ← step u; F a u) (s ++ t) y where
  whole rest := by
    dsimp only
    rw [List.append_assoc, h.whole]
    exact hF.whole rest
  cut u hu hne := by
    dsimp only
    -- The input ends inside the bytes of the second step or before them.
    by_cases hsu : s <+: u
    · obtain ⟨v, rfl⟩ := hsu
      have hv : v <+: t := (List.prefix_append_right_inj s).mp hu
      rw [h.whole]
      exact hF.cut v hv fun heq => hne (by rw [heq])
    · have hus : u <+: s :=
        (List.prefix_or_prefix_of_prefix hu (List.prefix_append s t)).resolve_right hsu
      rw [h.cut u hus fun heq => hsu (heq ▸ List.prefix_rfl)]
      rfl

theorem Reads.map (h : Reads step s x) (f : α → β) :
    Reads (fun u => do let (a, u) ← step u; return (f a, u)) s (f x) := by
  have hbind := h.bind (F := fun a u => .ok (f a, u)) (Reads.pure (f x))
  rwa [List.append_nil] at hbind

/-- Steps that differ nowhere read the same. -/
theorem Reads.congr {step' : Step α} (h : Reads step s x) (hsame : ∀ u, step' u = step u) :
    Reads step' s x := by
  rwa [funext hsame]

/-- A block of known length. -/
theorem reads_take {step : Step α} {n : Nat} {f : Bytes → α}
    (hstep : ∀ u, step u = if u.length < n then .error .incomplete else .ok (f (u.take n), u.drop n))
    (hn : s.length = n) : Reads step s (f s) where
  whole rest := by
    rw [hstep, if_neg (by rw [List.length_append]; omega), List.take_left' hn, List.drop_left' hn]
  cut u hu hne := by
    have hlt : u.length < n := by
      have hle := hu.length_le
      have := mt hu.eq_of_length hne
      omega
    rw [hstep, if_pos hlt]

/-- A step that is taken for each of several values. -/
theorem reads_times {step : Step β} {put : α → Bytes} {f : α → β} {xs : List α}
    (h : ∀ x ∈ xs, Reads step (put x) (f x)) :
    Reads (times step xs.length) (xs.flatMap put) (xs.map f) := by
  induction xs with
  | nil => exact (Reads.pure []).congr fun _ => rfl
  | cons x xs ih =>
    have hxs := ih fun z hz => h z (List.mem_cons_of_mem x hz)
    exact ((h x List.mem_cons_self).bind
      (F := fun a u => times step xs.length u >>= fun p => pure (a :: p.1, p.2))
      (hxs.map (f x :: ·))).congr fun _ => rfl

end

/-! ## Heads -/

/-- What the first byte of the shortest head says about the argument: the argument itself, or how many
bytes of it follow. -/
def infoOf (n : Nat) : Nat :=
  if n < 24 then n
  else if n < 0x100 then 24
  else if n < 0x10000 then 25
  else if n < 0x100000000 then 26
  else 27

section

variable {major info : Nat} (hmajor : major < 8) (hinfo : info < 28)
include hmajor hinfo

theorem toNat_first : (32 * major + info).toUInt8.toNat = 32 * major + info := by
  rw [UInt8.toNat_ofNat']
  omega

/-- A small argument stands in the first byte. -/
theorem reads_head_small (hsmall : info < 24) :
    Reads head [(32 * major + info).toUInt8] ⟨major, info, info⟩ where
  whole rest := by
    have hdiv : (32 * major + info) / 32 = major := by omega
    have hmod : (32 * major + info) % 32 = info := by omega
    simp only [List.singleton_append, head, toNat_first hmajor hinfo, hdiv, hmod, if_pos hsmall]
  cut t ht hne := by
    rcases List.prefix_cons_iff.mp ht with rfl | ⟨u, rfl, hu⟩
    · rfl
    · exact absurd (by rw [List.prefix_nil.mp hu]) hne

/-- A larger argument follows the first byte. -/
theorem reads_head_sized (args : Bytes)
    (hsized : (info, args.length) ∈ [(24, 1), (25, 2), (26, 4), (27, 8)])
    (hsimple : major = 7 → info ≠ 24) :
    Reads head ((32 * major + info).toUInt8 :: args) ⟨major, info, Bytes.toNatBE args⟩ := by
  have hdiv : (32 * major + info) / 32 = major := by omega
  have hmod : (32 * major + info) % 32 = info := by omega
  have hhead (u : Bytes) : head ((32 * major + info).toUInt8 :: u) =
      argument args.length u >>= fun p => pure (⟨major, info, p.1⟩, p.2) := by
    simp only [head, toNat_first hmajor hinfo, hdiv, hmod]
    simp only [List.mem_cons, Prod.mk.injEq, List.not_mem_nil, or_false] at hsized
    rcases hsized with ⟨rfl, hlen⟩ | ⟨rfl, hlen⟩ | ⟨rfl, hlen⟩ | ⟨rfl, hlen⟩
    · have hmajor : major ≠ 7 := fun h => hsimple h rfl
      rw [hlen]
      cases argument 1 u with
      | error f => rfl
      | ok p =>
        simp only [bind, Except.bind, hmajor, false_and, if_false]
        rfl
    all_goals
      rw [hlen]
      simp
  have hargs : Reads (argument args.length) args (Bytes.toNatBE args) :=
    reads_take (fun _ => rfl) rfl
  have hread := hargs.map fun value => (⟨major, info, value⟩ : Head)
  constructor
  · intro rest
    rw [List.cons_append, hhead]
    exact hread.whole rest
  · intro t ht hne
    rcases List.prefix_cons_iff.mp ht with rfl | ⟨u, rfl, hu⟩
    · rfl
    · rw [hhead]
      exact hread.cut u hu fun heq => hne (by rw [heq])

end

/-- A head in its shortest form.  A simple value has no argument that follows. -/
theorem reads_head {major n : Nat} (hmajor : major < 8) (hn : n < 0x10000000000000000)
    (hsimple : major = 7 → n < 24) : Reads head (Item.head major n) ⟨major, infoOf n, n⟩ := by
  unfold Item.head infoOf
  split
  · rename_i hsmall
    exact reads_head_small hmajor (by omega) hsmall
  rename_i hlarge
  have hsimple : major ≠ 7 := fun h => hlarge (hsimple h)
  split
  · have hvalue : Bytes.toNatBE [n.toUInt8] = n := by
      simp only [Bytes.toNatBE, List.foldl_cons, List.foldl_nil, UInt8.toNat_ofNat']
      omega
    have hread := reads_head_sized hmajor (by omega : 24 < 28) [n.toUInt8] (by simp)
      fun h => absurd h hsimple
    rwa [hvalue] at hread
  split
  · have hvalue : Bytes.toNatBE [(n / 256).toUInt8, n.toUInt8] = n := by
      simp only [Bytes.toNatBE, List.foldl_cons, List.foldl_nil, UInt8.toNat_ofNat']
      omega
    have hread := reads_head_sized hmajor (by omega : 25 < 28) [(n / 256).toUInt8, n.toUInt8]
      (by simp) fun h => absurd h hsimple
    rwa [hvalue] at hread
  split
  · have hvalue : Bytes.toNatBE (Bytes.ofUInt32 n.toUInt32).reverse = n := by
      rw [Bytes.toNatBE_reverse, Bytes.toNatLE_ofUInt32, UInt32.toNat_ofNat']
      omega
    have hread := reads_head_sized hmajor (by omega : 26 < 28)
      (Bytes.ofUInt32 n.toUInt32).reverse (by simp) fun h => absurd h hsimple
    rwa [hvalue] at hread
  · have hvalue : Bytes.toNatBE (Bytes.ofUInt64 n.toUInt64).reverse = n := by
      rw [Bytes.toNatBE_reverse, Bytes.toNatLE_ofUInt64, UInt64.toNat_ofNat']
      omega
    have hread := reads_head_sized hmajor (by omega : 27 < 28)
      (Bytes.ofUInt64 n.toUInt64).reverse (by simp) fun h => absurd h hsimple
    rwa [hvalue] at hread

theorem infoOf_lt (n : Nat) : infoOf n < 28 := by
  unfold infoOf
  repeat' split
  all_goals omega

/-! ## Items -/

/-- The item is written as the reader takes it, with at most `depth` arrays and maps inside one
another: its numbers have 64 bits, its strings are whole and no longer than a 63-bit number tells, its
arrays and maps are not too long, and there are no tags and no floats. -/
inductive Item.Fits : Nat → Item → Prop where
  | unsigned {depth n : Nat} (hn : n < 0x10000000000000000) : Fits depth (.unsigned n)
  | negative {depth n : Nat} (hn : n < 0x10000000000000000) : Fits depth (.negative n)
  | bytes {depth : Nat} {s : Bytes} (hs : s.length < 0x8000000000000000) : Fits depth (.bytes [s])
  | text {depth : Nat} {s : Bytes} (hs : s.length < 0x8000000000000000) : Fits depth (.text [s])
  | array {depth : Nat} {items : List Item} (hlength : items.length ≤ maxElements)
      (hitems : ∀ i ∈ items, Fits depth i) : Fits (depth + 1) (.array items)
  | map {depth pairs : Nat} {items : List Item} (hlength : items.length = 2 * pairs)
      (hpairs : pairs ≤ maxElements) (hitems : ∀ i ∈ items, Fits depth i) :
      Fits (depth + 1) (.map items)
  | simple {depth n : Nat} (hn : n < 24) : Fits depth (.simple n)

theorem Item.encodeAll_eq_flatMap (items : List Item) : encodeAll items = items.flatMap encode := by
  induction items with
  | nil => rw [encodeAll, List.flatMap_nil]
  | cons i items ih => rw [encodeAll, ih, List.flatMap_cons]

/-- The step for an item that is no tag: its head, and what the head asks for. -/
theorem reads_untagged {major n : Nat} {fuel depth : Nat} {s : Bytes} {i : Item} (hmajor : major < 8)
    (htag : major ≠ 6) (hn : n < 0x10000000000000000) (hsimple : major = 7 → n < 24)
    (h : Reads (itemAt.untagged fuel depth ⟨major, infoOf n, n⟩) s i) :
    Reads (itemAt (fuel + 1) depth) (Item.head major n ++ s) i :=
  ((reads_head hmajor hn hsimple).bind (F := fun h s =>
    if h.major = 6 then
      nestedTags depth (s.length + 1) s >>= fun nested => head nested.2 >>= fun inner =>
        itemAt.untagged fuel nested.1.2 inner.1 inner.2 >>= fun content =>
          pure (.tag h.value (nested.1.1.foldr .tag content.1), content.2)
    else itemAt.untagged fuel depth h s) (h.congr fun _ => if_neg htag)).congr fun _ => by
      rw [itemAt]

theorem reads_string (major : Nat) {s : Bytes} (hs : s.length < 0x8000000000000000) :
    Reads (string ⟨major, infoOf s.length, s.length⟩) s [s] := by
  have hinfo := infoOf_lt s.length
  have hbody : Reads (stringBody s.length) s s :=
    reads_take (f := id) (fun u => if_neg (by omega)) rfl
  refine (hbody.map fun body => [body]).congr fun u => ?_
  have hdefinite : (⟨major, infoOf s.length, s.length⟩ : Head).isIndefinite = false :=
    decide_eq_false (by dsimp only; omega)
  rw [string, hdefinite]
  rfl

theorem reads_elements {step : Step Item} (major : Nat) {items : List Item} {n : Nat}
    (hlength : items.length = (if major = 5 then 2 else 1) * n) (hn : n ≤ maxElements)
    (h : ∀ i ∈ items, Reads step i.encode i) :
    Reads (elements step ⟨major, infoOf n, n⟩) (items.flatMap Item.encode) items := by
  have hinfo := infoOf_lt n
  have htimes : Reads (times step items.length) (items.flatMap Item.encode) (items.map id) :=
    reads_times h
  rw [List.map_id] at htimes
  refine htimes.congr fun u => ?_
  have hdefinite : (⟨major, infoOf n, n⟩ : Head).isIndefinite = false :=
    decide_eq_false (by dsimp only; omega)
  have hwithin : ¬ (0x8000000000000000 ≤ n ∨ maxElements < n) := by
    have : maxElements < 0x8000000000000000 := by decide
    omega
  rw [elements, hdefinite, hlength]
  exact if_neg hwithin

/-- An item that fits is read from its canonical encoding. -/
theorem reads_itemAt {room : Nat} {i : Item} (h : i.Fits room) {fuel depth : Nat} (hfuel : room < fuel)
    (hdepth : depth + room ≤ maxNesting) : Reads (itemAt fuel depth) i.encode i := by
  obtain ⟨fuel, rfl⟩ : ∃ k, fuel = k + 1 := ⟨fuel - 1, by omega⟩
  induction h generalizing fuel depth with
  | @unsigned _ n hn =>
    rw [Item.encode, ← List.append_nil (Item.head 0 n)]
    exact reads_untagged (by omega) (by omega) hn (by omega)
      ((Reads.pure _).congr fun _ => by simp only [itemAt.untagged])
  | @negative _ n hn =>
    rw [Item.encode, ← List.append_nil (Item.head 1 n)]
    exact reads_untagged (by omega) (by omega) hn (by omega)
      ((Reads.pure _).congr fun _ => by simp only [itemAt.untagged])
  | @bytes _ s hs =>
    rw [Item.encode, Item.string, List.flatten_singleton]
    exact reads_untagged (by omega) (by omega) (by omega) (by omega)
      (((reads_string 2 hs).map Item.bytes).congr fun _ => by simp only [itemAt.untagged])
  | @text _ s hs =>
    rw [Item.encode, Item.string, List.flatten_singleton]
    exact reads_untagged (by omega) (by omega) (by omega) (by omega)
      (((reads_string 3 hs).map Item.text).congr fun _ => by simp only [itemAt.untagged])
  | @array room items hlength hitems ih =>
    have hitem : ∀ i ∈ items, Reads (itemAt fuel (depth + 1)) i.encode i := by
      intro i hi
      obtain ⟨fuel, rfl⟩ : ∃ k, fuel = k + 1 := ⟨fuel - 1, by omega⟩
      exact ih i hi (by omega) fuel (by omega)
    have hnesting : ¬ maxNesting < depth + 1 := by omega
    have hbound : maxElements < 0x10000000000000000 := by decide
    have helements := (reads_elements 4 (by simp) hlength hitem).map Item.array
    rw [Item.encode, Item.encodeAll_eq_flatMap]
    exact reads_untagged (by omega) (by omega) (by omega) (by omega)
      (helements.congr fun _ => by simp only [itemAt.untagged, if_neg hnesting])
  | @map room pairs items hlength hpairs hitems ih =>
    have hitem : ∀ i ∈ items, Reads (itemAt fuel (depth + 1)) i.encode i := by
      intro i hi
      obtain ⟨fuel, rfl⟩ : ∃ k, fuel = k + 1 := ⟨fuel - 1, by omega⟩
      exact ih i hi (by omega) fuel (by omega)
    have hnesting : ¬ maxNesting < depth + 1 := by omega
    have hbound : maxElements < 0x10000000000000000 := by decide
    have helements := (reads_elements 5 (by simpa using hlength) hpairs hitem).map Item.map
    rw [Item.encode, Item.encodeAll_eq_flatMap, show items.length / 2 = pairs by omega]
    exact reads_untagged (by omega) (by omega) (by omega) (by omega)
      (helements.congr fun _ => by simp only [itemAt.untagged, if_neg hnesting])
  | @simple _ n hn =>
    have hinfo : infoOf n = n := if_pos hn
    rw [Item.encode, if_pos hn, ← List.append_nil (Item.head 7 n)]
    refine reads_untagged (by omega) (by omega) (by omega) (fun _ => hn)
      ((Reads.pure _).congr fun _ => ?_)
    simp only [itemAt.untagged, hinfo]
    rw [if_neg (by omega), if_neg (by omega), if_neg (by omega)]

/-! ## Input -/

section

variable {s : Bytes} {i : Item} (h : Reads (itemAt (maxNesting + 1) 0) s i)
include h

theorem decode_of_reads : decode s = .ok i := by
  have hwhole := h.whole []
  rw [List.append_nil] at hwhole
  rw [decode, hwhole]
  rfl

/-- An item that ends too early is told apart from input that is no item. -/
theorem decode_of_prefix {t : Bytes} (ht : t <+: s) (hne : t ≠ s) : decode t = .error .incomplete := by
  rw [decode, h.cut t ht hne]
  rfl

theorem decode_append {rest : Bytes} (hrest : rest ≠ []) :
    decode (s ++ rest) = .error .extraneous := by
  rw [decode, h.whole rest]
  exact if_pos hrest

end

end LuaToC.Cbor
