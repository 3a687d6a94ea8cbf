import LsmTree.Basic
import LsmTree.Iterator
import LsmTree.MemTable
import LsmTree.Sst
import LsmTree.Engine
import LsmTree.Directory
import LsmTree.Store
import LsmTree.Invariant
import LsmTree.Get
import LsmTree.Compaction
import LsmTree.Writes
import LsmTree.Runs
import LsmTree.Scans
import LsmTree.Restart
import LsmTree.Redis.Basic
import LsmTree.Redis.Hash
import LsmTree.Redis.List
import LsmTree.Redis.ZSet
import LsmTree.Redis.Strings
import LsmTree.Redis.SortedSets
import LsmTree.Redis.Locking
import LsmTree.Redis.Separation
import LsmTree.Redis.Progress
import LsmTree.Persistence
