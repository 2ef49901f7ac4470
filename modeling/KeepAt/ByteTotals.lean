import KeepAt.Ledger

namespace KeepAt

/-- An `item` element of database.xml. -/
structure RssItem where
  title : String
  infohash : String
  description : String
  size : UInt64
  deriving DecidableEq

/-- The control characters, C0, DEL and C1. -/
def isControl (c : Char) : Bool := decide (c.toNat < 32 ∨ 127 ≤ c.toNat ∧ c.toNat < 160)

def sanitizeTitle (s : String) : String := String.ofList (s.toList.filter fun c => !isControl c)

/-- An entry with a bad infohash gives no item. -/
def RssItem.item (raw : RssItem) : Option Item :=
  (decodeHash raw.infohash).map fun infoHash =>
    { title := sanitizeTitle raw.title, infoHash := infoHash, description := raw.description,
      sizeBytes := raw.size.toNat }

/-- `atcatalog::parse`, over what the XML reader makes of the document. -/
def AtCatalog.parse (fromReader : Bytes → Option (List RssItem)) (data : Bytes) : Option (List Item) :=
  (fromReader data).map (List.filterMap RssItem.item)

/-- `library_bytes` in the release profile, over the items in the order of the scan. -/
def libraryBytes (items : List Item) : Nat :=
  items.foldl (fun total item => (total + item.sizeBytes) % 2 ^ 64) 0

/-- No addition of the loop leaves the range. -/
def SumsExactly (items : List Item) : Prop :=
  ∀ front item back, items = front ++ item :: back → libraryBytes front + item.sizeBytes < 2 ^ 64

/-- The recursion of `human_bytes` ends, with a text. -/
def Renders (n : Int) : Prop := ∃ depth text, humanBytesFuel depth n = some text

theorem libraryBytes_concat (front : List Item) (item : Item) :
    libraryBytes (front ++ [item]) = (libraryBytes front + item.sizeBytes) % 2 ^ 64 := by
  rw [libraryBytes, List.foldl_append]
  rfl

theorem libraryBytes_eq_wrappingSum (items : List Item) :
    libraryBytes items = wrappingSum (items.map Item.sizeBytes) := by
  induction items using List.reverseRecOn with
  | nil => rfl
  | append_singleton front item ih =>
    rw [libraryBytes_concat, ih, List.map_append, wrappingSum, wrappingSum, List.sum_append, Nat.mod_add_mod]
    rfl

theorem libraryBytes_eq_iff (items : List Item) :
    libraryBytes items = (items.map Item.sizeBytes).sum ↔ (items.map Item.sizeBytes).sum < 2 ^ 64 := by
  rw [libraryBytes_eq_wrappingSum, wrappingSum]
  exact Nat.mod_eq_iff_lt (by decide)

theorem sumsExactly_iff (items : List Item) : SumsExactly items ↔ (items.map Item.sizeBytes).sum < 2 ^ 64 := by
  constructor
  · intro h
    induction items using List.reverseRecOn with
    | nil => decide
    | append_singleton front item ih =>
      have hfront := ih fun before next after he => h before next (after ++ [item]) (by simp [he])
      have hlast := h front item [] rfl
      rw [(libraryBytes_eq_iff front).mpr hfront] at hlast
      simpa using hlast
  · rintro h front item back rfl
    rw [List.map_append, List.map_cons, List.sum_append, List.sum_cons] at h
    rw [(libraryBytes_eq_iff front).mpr (by omega)]
    omega

theorem renders_iff {n : Int} (hlow : -2 ^ 63 ≤ n) (hhigh : n < 2 ^ 63) : Renders n ↔ n ≠ -2 ^ 63 := by
  constructor
  · rintro ⟨depth, text, h⟩ rfl
    rw [humanBytesFuel_min] at h
    cases h
  · intro hmin
    rcases Int.eq_nat_or_neg n with ⟨k, rfl | rfl⟩
    · exact ⟨2, _, humanBytes_of_nonneg⟩
    · by_cases hzero : k = 0
      next => exact hzero ▸ ⟨2, _, humanBytes_of_nonneg⟩
      next => exact ⟨2, _, humanBytes_of_neg (by omega) (by omega)⟩

/-- A byte count comes out of the cast as the least value exactly when it is half the range. -/
theorem renders_asI64_iff {count : Nat} (h : count < 2 ^ 64) : Renders (asI64 count) ↔ count ≠ 2 ^ 63 := by
  have hmod : count % 2 ^ 64 = count := Nat.mod_eq_of_lt h
  by_cases hlow : count < 2 ^ 63
  next =>
    rw [asI64_of_lt hlow, renders_iff (by omega) (by omega)]
    omega
  next =>
    rw [asI64, hmod, if_neg hlow, renders_iff (by omega) (by omega)]
    omega

/-- A scan adds up its catalog, in whatever order it walks it, exactly if the sum fits, and a count has a
text exactly if the cast does not make it the least value. -/
theorem byteTotals_iff (fromReader : Bytes → Option (List RssItem)) :
    (∀ data catalog, AtCatalog.parse fromReader data = some catalog → ∀ scanned, scanned.Perm catalog →
      (SumsExactly scanned ∧ libraryBytes scanned = (catalog.map Item.sizeBytes).sum ↔
        (catalog.map Item.sizeBytes).sum < 2 ^ 64)) ∧
    (∀ n : Int, -2 ^ 63 ≤ n → n < 2 ^ 63 → (Renders n ↔ n ≠ -2 ^ 63)) ∧
    ∀ count < 2 ^ 64, Renders (asI64 count) ↔ count ≠ 2 ^ 63 := by
  refine ⟨fun data catalog _ scanned horder => ?_, fun n => renders_iff, fun count => renders_asI64_iff⟩
  have hsum : (scanned.map Item.sizeBytes).sum = (catalog.map Item.sizeBytes).sum := (horder.map _).sum_eq
  rw [← hsum, libraryBytes_eq_iff, sumsExactly_iff, and_self]

def smallItem : RssItem := ⟨"", hexEncode zeroHash, "", 512⟩

def smallCatalog : List Item :=
  [⟨sanitizeTitle "", zeroHash, "", 512⟩, ⟨sanitizeTitle "", zeroHash, "", 512⟩]

theorem smallItem_item : smallItem.item = some ⟨sanitizeTitle "", zeroHash, "", 512⟩ := by
  have hsize : (512 : UInt64).toNat = 512 := by decide
  rw [RssItem.item, smallItem, decodeHash_hexEncode, Option.map_some, hsize]

/-- Two torrents of 512 bytes. -/
theorem byteTotals_iff_small :
    SumsExactly smallCatalog ∧ libraryBytes smallCatalog = 1024 ∧ Renders (asI64 1024) := by
  have hparse : AtCatalog.parse (fun _ => some [smallItem, smallItem]) [] = some smallCatalog := by
    rw [AtCatalog.parse, Option.map_some, List.filterMap_cons_some smallItem_item,
      List.filterMap_cons_some smallItem_item]
    rfl
  obtain ⟨htotal, -, hcount⟩ := byteTotals_iff fun _ => some [smallItem, smallItem]
  obtain ⟨hsums, hbytes⟩ := (htotal [] smallCatalog hparse smallCatalog (List.Perm.refl _)).mpr (by decide)
  exact ⟨hsums, hbytes, (hcount 1024 (by decide)).mpr (by decide)⟩

/-- A torrent of 8 EiB. -/
def hugeItem : RssItem := ⟨"", hexEncode zeroHash, "", 9223372036854775808⟩

def hugeDatabase : Bytes :=
  ("<rss><channel><item><infohash>0000000000000000000000000000000000000000</infohash>" ++
    "<size>9223372036854775808</size></item><item><infohash>0000000000000000000000000000000000000000" ++
    "</infohash><size>9223372036854775808</size></item></channel></rss>").toUTF8.toList

/-- The reader, on this document. -/
def hugeReader (data : Bytes) : Option (List RssItem) :=
  if data = hugeDatabase then some [hugeItem, hugeItem] else none

/-- The total of the two comes out as nothing, and the size of one has no text at any depth. -/
theorem hugeDatabase_wraps :
    ∃ catalog, AtCatalog.parse hugeReader hugeDatabase = some catalog ∧
      (catalog.map Item.sizeBytes).sum = 2 ^ 64 ∧ libraryBytes catalog = 0 ∧ ¬ SumsExactly catalog ∧
      ∃ item ∈ catalog, ¬ Renders (asI64 item.sizeBytes) := by
  have hitem : hugeItem.item = some ⟨sanitizeTitle "", zeroHash, "", 2 ^ 63⟩ := by
    have hsize : (9223372036854775808 : UInt64).toNat = 2 ^ 63 := by decide
    rw [RssItem.item, hugeItem, decodeHash_hexEncode, Option.map_some, hsize]
  have hparse : AtCatalog.parse hugeReader hugeDatabase =
      some [⟨sanitizeTitle "", zeroHash, "", 2 ^ 63⟩, ⟨sanitizeTitle "", zeroHash, "", 2 ^ 63⟩] := by
    rw [AtCatalog.parse, hugeReader, if_pos rfl, Option.map_some, List.filterMap_cons_some hitem,
      List.filterMap_cons_some hitem, List.filterMap_nil]
  refine ⟨_, hparse, rfl, rfl, ?_, _, List.mem_cons_self, ?_⟩
  · rw [sumsExactly_iff]
    exact Nat.lt_irrefl (2 ^ 64)
  · rw [renders_asI64_iff (by decide : 2 ^ 63 < 2 ^ 64)]
    exact not_not.mpr rfl

end KeepAt
