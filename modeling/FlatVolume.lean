import FlatVolume.Bench
import FlatVolume.Bench.ByteCache
import FlatVolume.Bench.Event
import FlatVolume.Bench.RangeCache
import FlatVolume.Bench.Script
import FlatVolume.Bench.Session
import FlatVolume.Bench.Step
import FlatVolume.Bench.Tally
import FlatVolume.Bytes
import FlatVolume.Checked
import FlatVolume.Contents
import FlatVolume.Contents.Cells
import FlatVolume.Disk
import FlatVolume.Disk.Host
import FlatVolume.Disk.System
import FlatVolume.Fault
import FlatVolume.Gap
import FlatVolume.IoError
import FlatVolume.Layout
import FlatVolume.LogLine
import FlatVolume.Manifest
import FlatVolume.Memory
import FlatVolume.Memory.Archive
import FlatVolume.Memory.Host
import FlatVolume.Path
import FlatVolume.Path.Quoted
import FlatVolume.Path.Steps
import FlatVolume.Path.Unprintable
import FlatVolume.Program
import FlatVolume.Program.Pool
import FlatVolume.Proofs.Backing
import FlatVolume.Proofs.Carving
import FlatVolume.Proofs.Closing
import FlatVolume.Proofs.Commits
import FlatVolume.Proofs.Confinement
import FlatVolume.Proofs.Contracts
import FlatVolume.Proofs.CountingFiles
import FlatVolume.Proofs.DeclaredPaths
import FlatVolume.Proofs.DisjointCalls
import FlatVolume.Proofs.DiskPlaces
import FlatVolume.Proofs.DiskRefinement
import FlatVolume.Proofs.DiskVolume
import FlatVolume.Proofs.Errands
import FlatVolume.Proofs.FaithfulCache
import FlatVolume.Proofs.FaultFreedom
import FlatVolume.Proofs.Faultless
import FlatVolume.Proofs.FixedSettings
import FlatVolume.Proofs.FlatArray
import FlatVolume.Proofs.GapReads
import FlatVolume.Proofs.HeldRange
import FlatVolume.Proofs.HonestFiles
import FlatVolume.Proofs.Interference
import FlatVolume.Proofs.Interleaving
import FlatVolume.Proofs.Layers
import FlatVolume.Proofs.Ledger
import FlatVolume.Proofs.Lifetime
import FlatVolume.Proofs.Lookup
import FlatVolume.Proofs.MemoryFiles
import FlatVolume.Proofs.MemoryGrowth
import FlatVolume.Proofs.MemoryRefinement
import FlatVolume.Proofs.MemoryVolume
import FlatVolume.Proofs.Namespaces
import FlatVolume.Proofs.Opening
import FlatVolume.Proofs.PathTexts
import FlatVolume.Proofs.Patience
import FlatVolume.Proofs.PocketCache
import FlatVolume.Proofs.ReadProgress
import FlatVolume.Proofs.Recording
import FlatVolume.Proofs.Reopening
import FlatVolume.Proofs.Requests
import FlatVolume.Proofs.RoundTrip
import FlatVolume.Proofs.Schedule
import FlatVolume.Proofs.SplitTransfers
import FlatVolume.Proofs.Tiling
import FlatVolume.Proofs.TransferLoop
import FlatVolume.Proofs.Transparency
import FlatVolume.Proofs.Usage
import FlatVolume.Proofs.WalkLoop
import FlatVolume.Proofs.WriteBacks
import FlatVolume.Proofs.WriteProgress
import FlatVolume.Settings
import FlatVolume.Table
import FlatVolume.Transfer
import FlatVolume.Volume
import FlatVolume.Volume.Access
import FlatVolume.Volume.Walk
import FlatVolume.VolumeError
import FlatVolume.Word
