import ApexOS.Lib.Recent
import Mathlib.Data.UInt

/-!
# Frames that arrive twice

A frame of the highest class goes out over every lane that carries it, so that copies of it arrive,
in any order and among other frames. The cache of what was seen tells them apart from news.

## Main definitions

* `SeenCache.new`, `SeenCache.accept`: the cache
* `SeenCache.news`: what was taken for news, by what arrived

## Main results

* `news_of_arrivals`: every frame is news at some time; of two copies that are taken for news, so
  many others lie in between as the cache holds; and where no more arrive in all, each is news once
-/

namespace ApexOS.Mesh

/-- `SeenCache`, by the sender and the counter of a frame. -/
abbrev SeenCache := Recent (UInt16 × UInt64)

namespace SeenCache

/-- `SeenCache::new`. -/
def new (capacity : ℕ) : SeenCache := ⟨max capacity 1, []⟩

/-- `SeenCache::accept`. -/
def accept (c : SeenCache) (sender : UInt16) (ctr : UInt64) : SeenCache × Bool :=
  Recent.accept c (sender, ctr)

/-- What `Router::accept_inbound` takes for news, in order. -/
def news (capacity : ℕ) (arrivals : List (UInt16 × UInt64)) : List (UInt16 × UInt64) :=
  Recent.accepted (Run.log (fun c x => c.accept x.1 x.2) (new capacity) arrivals)

/-- **What is taken for news.** -/
theorem news_of_arrivals (capacity : ℕ) (arrivals : List (UInt16 × UInt64)) :
    (∀ x, x ∈ news capacity arrivals ↔ x ∈ arrivals) ∧
      (∀ w, w <:+: news capacity arrivals → w.length ≤ max capacity 1 + 1 → w.Nodup) ∧
      (arrivals.dedup.length ≤ max capacity 1 → (news capacity arrivals).Nodup) := by
  have hpos : 0 < max capacity 1 := Nat.lt_of_lt_of_le Nat.zero_lt_one (Nat.le_max_right _ _)
  exact ⟨Recent.mem_accepted hpos arrivals, fun _ hw hlength =>
    Recent.nodup_of_infix hpos arrivals hw hlength, Recent.nodup_accepted hpos arrivals⟩

end SeenCache

end ApexOS.Mesh
