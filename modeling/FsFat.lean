import FsFat.Lib.Loop
import FsFat.BlockTreeNode
import FsFat.Lib.Bytes
import FsFat.BlockTree
import FsFat.AllocationTable
import FsFat.Fat12AllocationTable
import FsFat.Directory
import FsFat.ClusterChain
import FsFat.FileSystem
import FsFat.DataStream
import FsFat.DirectoryLayout
import FsFat.ExfatDirectory
import FsFat.VfatDirectory
import FsFat.DirectoryEntryLookup
import FsFat.BlockTreeMap
import FsFat.DirectoryContent
import FsFat.DirectoryListing
import FsFat.DirectoryReaders
import FsFat.DirectoryTerminator
import FsFat.AllocationTableEntries
import FsFat.Volume
import FsFat.FileEntry
import FsFat.EntryIdentifiers
import FsFat.ReservedBits
import FsFat.Lib.Strings
import FsFat.Name
import FsFat.FileEntryPath
import FsFat.UnicodePath
import FsFat.MountPathString
import FsFat.PathNames
import FsFat.MountFileSystem
import FsFat.Geometry
import FsFat.ReversedAllocationTable
import FsFat.ClusterRuns
import FsFat.DataStreamBuild
import FsFat.FileEntryData
import FsFat.LongNameRuns
import FsFat.PathIteration
import FsFat.DirectoryTree
import FsFat.ShortNameLookup
import FsFat.ExfatLookup
import FsFat.DateTime
import FsFat.MountFileEntry
import FsFat.ClusterOffsets
import FsFat.MountPathRoundTrip
import FsFat.ShortName
import FsFat.SubFileEntry
import FsFat.PathNotFound
import FsFat.NameOrder
import FsFat.SubFileEntryNames
import FsFat.BodyFile
import FsFat.BodyFileLine
import FsFat.DecimalString
import FsFat.LongNameBuffer
import FsFat.LongNameArray
import FsFat.AllocationTableAccess
import FsFat.BlockTreeDescent
import FsFat.Lib.Session
import FsFat.LibrarySession
import FsFat.VolumeHandles
import FsFat.MountFuse
import FsFat.MountListing
import FsFat.MountSession
import FsFat.Lib.Traversal
import FsFat.InfoHierarchy
import FsFat.BodyFileHierarchy
import FsFat.InfoLookup
import FsFat.FileContent
import FsFat.BodyFileContent
import FsFat.PyDateTime
