import Fallow.Mesh.Transfer

/-! The Merkle root commits to the list of chunks (`merkle.py`).

    A level of the loop holds the digests of trees. A pass pairs neighbours and promotes an odd one
    unchanged, so the leaves stay where they are, read from left to right:

        a b c d e  ─▶  ab cd e  ─▶  abcd e  ─▶  abcde

    Leaves and inner nodes are hashed behind different bytes, so a digest gives its tree back as
    long as no two of the messages hashed on the way collide. -/

namespace Fallow.Mesh
open Lib Lib.PyStr List

inductive Tree where
  | leaf (chunk : Bytes)
  | node (left right : Tree)

namespace Tree

def digest (w : Platform) : Tree → Bytes
  | leaf b => w.sha256 (0 :: b)
  | node l r => Mesh.node w (l.digest w) (r.digest w)

def leaves : Tree → List Bytes
  | leaf b => [b]
  | node l r => l.leaves ++ r.leaves

/-- What is hashed for the digest. -/
def messages (w : Platform) : Tree → List Bytes
  | leaf b => [0 :: b]
  | node l r => (1 :: (l.digest w ++ r.digest w)) :: (l.messages w ++ r.messages w)

def pairUp : List Tree → List Tree
  | l :: r :: rest => node l r :: pairUp rest
  | level => level

def grow : (fuel : ℕ) → List Tree → List Tree
  | 0, level => level
  | fuel + 1, level => if 1 < level.length then grow fuel (pairUp level) else level

/-- The tree of a list of chunks; without chunks it is the leaf over no bytes. -/
def ofChunks (chunks : List Bytes) : Tree :=
  (grow chunks.length (chunks.map leaf)).headD (leaf [])

variable {w : Platform} {chunks : List Bytes}

theorem map_digest_pairUp : ∀ level : List Tree,
    (pairUp level).map (digest w) = nextLevel w (level.map (digest w))
  | [] | [_] => rfl
  | l :: r :: rest => by simp [pairUp, nextLevel, digest, map_digest_pairUp rest]

theorem map_digest_grow : ∀ (fuel : ℕ) (level : List Tree),
    (grow fuel level).map (digest w) = climb w fuel (level.map (digest w))
  | 0, _ => rfl
  | fuel + 1, level => by
    rw [grow, climb, length_map, ← map_digest_pairUp, ← map_digest_grow fuel]
    split <;> rfl

theorem leaves_pairUp : ∀ level : List Tree,
    (pairUp level).flatMap leaves = level.flatMap leaves
  | [] | [_] => rfl
  | l :: r :: rest => by simp [pairUp, leaves, leaves_pairUp rest]

theorem leaves_grow : ∀ (fuel : ℕ) (level : List Tree),
    (grow fuel level).flatMap leaves = level.flatMap leaves
  | 0, _ => rfl
  | fuel + 1, level => by
    rw [grow]
    split
    · rw [leaves_grow fuel, leaves_pairUp]
    · rfl

theorem grow_eq (h : chunks ≠ []) : grow chunks.length (chunks.map leaf) = [ofChunks chunks] := by
  have hone := length_climb (w := plainPlatform) chunks.length
    ((chunks.map leaf).map (digest plainPlatform)) (by simpa using h) (by simp)
  rw [← map_digest_grow, length_map] at hone
  obtain ⟨t, ht⟩ := length_eq_one_iff.1 hone
  rw [ofChunks, ht]
  rfl

/-- REFINES: the loop computes the digest of the tree. -/
theorem merkleRoot_eq (chunks : List Bytes) :
    merkleRoot w (chunks.map hex) = .ok (hex ((ofChunks chunks).digest w)) := by
  rcases eq_or_ne chunks [] with rfl | hne
  · rfl
  have hroot := map_digest_grow (w := w) chunks.length (chunks.map leaf)
  rw [grow_eq hne, map_map] at hroot
  rw [merkleRoot, if_neg (by simpa using hne), mapM_leaf]
  change Except.ok (hex ((climb w _ (chunks.map (digest w ∘ leaf))).headD [])) = _
  rw [length_map, ← hroot]
  rfl

theorem leaves_ofChunks (h : [] ∉ chunks) : (ofChunks chunks).leaves.filter (· ≠ []) = chunks := by
  rcases eq_or_ne chunks [] with rfl | hne
  · rfl
  have hleaves := leaves_grow chunks.length (chunks.map leaf)
  rw [grow_eq hne] at hleaves
  have hall : (ofChunks chunks).leaves = chunks := by simpa [leaves, flatMap_map] using hleaves
  rw [hall, filter_eq_self]
  exact fun b hb => decide_eq_true fun he => h (he ▸ hb)

/-- A digest gives its tree back. -/
theorem digest_inj (hsha : w.sha256 = Sha256.digest) {t t' : Tree}
    (hfree : ∀ x ∈ S, ∀ y ∈ S, w.sha256 x = w.sha256 y → x = y) (hS : t.messages w ⊆ S)
    (hS' : t'.messages w ⊆ S) (h : t.digest w = t'.digest w) : t = t' := by
  have hlen : ∀ t : Tree, (t.digest w).length = 32 := by
    intro t
    cases t <;> simp only [digest, Mesh.node, hsha, Sha256.length_digest]
  induction t generalizing t' with
  | leaf b =>
    cases t' with
    | leaf b' =>
      have := hfree _ (hS (mem_singleton.2 rfl)) _ (hS' (mem_singleton.2 rfl)) h
      simp_all
    | node l' r' =>
      have := hfree _ (hS (mem_singleton.2 rfl)) _ (hS' mem_cons_self) h
      simp at this
  | node l r ihl ihr =>
    cases t' with
    | leaf b' =>
      have := hfree _ (hS mem_cons_self) _ (hS' (mem_singleton.2 rfl)) h
      simp at this
    | node l' r' =>
      have hmsg := hfree _ (hS mem_cons_self) _ (hS' mem_cons_self) h
      obtain ⟨hl, hr⟩ := append_inj (cons.inj hmsg).2 ((hlen l).trans (hlen l').symm)
      simp only [messages, cons_subset, append_subset] at hS hS'
      rw [ihl hS.2.1 hS'.2.1 hl, ihr hS.2.2 hS'.2.2 hr]

end Tree

/-! ### Lists of hashes -/

/-- 64 lowercase hexadecimal digits: 32 bytes as a text. -/
def IsHash (h : PyJson.Str) : Prop := ∃ b : Bytes, b.length = 32 ∧ hex b = h

def chunksOf (chunkHashes : List PyJson.Str) : List Bytes :=
  chunkHashes.map fun h => (fromHex h).getD []

/-- What `merkle_root` hashes. -/
def rootMessages (w : Platform) (chunkHashes : List PyJson.Str) : List Bytes :=
  (Tree.ofChunks (chunksOf chunkHashes)).messages w

theorem hex_chunksOf (h : ∀ x ∈ l, IsHash x) : (chunksOf l).map hex = l ∧ [] ∉ chunksOf l := by
  induction l with
  | nil => exact ⟨rfl, nofun⟩
  | cons x l ih =>
    obtain ⟨b, hb, rfl⟩ := h x mem_cons_self
    obtain ⟨hl, hne⟩ := ih fun y hy => h y (mem_cons_of_mem _ hy)
    have hcons : chunksOf (hex b :: l) = b :: chunksOf l := by simp [chunksOf, fromHex_hex]
    rw [hcons, map_cons, hl, mem_cons, not_or]
    refine ⟨rfl, ?_, hne⟩
    rintro rfl
    cases hb

/-- CORRECT: lists of hashes with one root are one list, if nothing hashed for the two collides. -/
theorem merkleRoot_commits (w : Platform) (hsha : w.sha256 = Sha256.digest)
    (l l' : List PyJson.Str) (hl : ∀ h ∈ l, IsHash h) (hl' : ∀ h ∈ l', IsHash h)
    (hfree : ∀ x ∈ rootMessages w l ++ rootMessages w l', ∀ y ∈ rootMessages w l ++ rootMessages w l',
      w.sha256 x = w.sha256 y → x = y) (h : merkleRoot w l = merkleRoot w l') : l = l' := by
  obtain ⟨hhex, hne⟩ := hex_chunksOf hl
  obtain ⟨hhex', hne'⟩ := hex_chunksOf hl'
  rw [← hhex, ← hhex', Tree.merkleRoot_eq, Tree.merkleRoot_eq] at h
  have htree := Tree.digest_inj hsha hfree (subset_append_left _ _) (subset_append_right _ _)
    (hex_injective (Except.ok.inj h))
  rw [← hhex, ← hhex', ← Tree.leaves_ofChunks hne, htree, Tree.leaves_ofChunks hne']

/-- A chunk alone and the chunk twice. -/
theorem merkleRoot_commits_twice : let w := { plainPlatform with sha256 := Sha256.digest }
    let h := hex (replicate 32 7)
    merkleRoot w [h] ≠ merkleRoot w [h, h] := by
  intro w h heq
  have hash : ∀ n, ∀ x ∈ replicate n h, IsHash x := fun n x hx =>
    ⟨_, by simp, (eq_of_mem_replicate hx).symm⟩
  exact absurd (merkleRoot_commits w rfl [h] [h, h] (hash 1) (hash 2) (by decide +kernel) heq)
    (by decide)

end Fallow.Mesh
